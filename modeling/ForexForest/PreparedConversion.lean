import ForexForest.Libsvm
import ForexForest.PreparedEvaluation

/-!
# From ticks to the learner's file

The Spark project trains on a file that two programs make of the ticks: one
prepares a record for each minute, the other shuffles the records and converts the
first ten thousand of them.

`Shows` says what a learner reads from a converted line.  `Convert2LIBSVM.main_ofTicks`
follows the ticks of one month through both programs: which files are converted, and
that every line shows its minute and the move to the next one.
-/

namespace Forex

open Java DataPrep

namespace Libsvm

variable {jdk : Jdk} {numeric : JString → Option ℝ}

/-- What is read from the line of a record: the label, one higher, the number of the
time within its month, and the prices. -/
structure Shows (jdk : Jdk) (numeric : JString → Option ℝ) (cs : CandleStick)
    (line : JString) : Prop where
  label : labelOf jdk line = some (cs.label + 1)
  time : ∃ t : TimeText, cs.time = t.text ∧
    valueOf numeric line 1 = some (ofDigits t.ofMonth : ℝ)
  high : valueOf numeric line 2 = some cs.high.toReal
  low : valueOf numeric line 3 = some cs.low.toReal
  close : valueOf numeric line 4 = some cs.close.toReal

/-- The line of a record of the month shows it. -/
theorem shows_written (hjdk : jdk.Lawful) (hnumeric : NumericText jdk numeric)
    {yearMonth : JString} {cs : CandleStick} (hcs : OfMonth yearMonth cs) :
    ∃ line, cs.toLIBSVMFormat jdk = .ok line ∧ Shows jdk numeric cs line := by
  obtain ⟨t, -, htime⟩ := hcs.time
  have hvalue {k : Nat} (hk : k < 4) := valueOf_written (t := t) hjdk hnumeric hcs hk
  exact ⟨writtenLine jdk cs t, toLIBSVMFormat_eq htime, labelOf_written hjdk hnumeric,
    ⟨t, htime, hvalue (k := 0) (by omega)⟩, hvalue (k := 1) (by omega),
    hvalue (k := 2) (by omega), hvalue (k := 3) (by omega)⟩

/-- With ten thousand records of one month, and no fewer, the conversion writes a line
for each of the first ten thousand. -/
theorem main_shows (hjdk : jdk.Lawful) (hnumeric : NumericText jdk numeric)
    {yearMonth : JString} {lines : List JString} {totalInstances : List CandleStick}
    (hread : lines.mapM (CandleStick.readRecord jdk) = .ok totalInstances)
    (hmonth : ∀ cs ∈ totalInstances, OfMonth yearMonth cs) (shuffle : Shuffle) :
    ((∃ written, Convert2LIBSVM.main jdk shuffle lines = .ok written) ↔
      10000 ≤ totalInstances.length) ∧
    ∀ written, Convert2LIBSVM.main jdk shuffle lines = .ok written →
      List.Forall₂ (Shows jdk numeric) ((shuffle.apply totalInstances).take 10000) written := by
  have hlimit : ((10000 : Int32).toInt) = (10000 : Nat) := by decide
  have hzero : ((0 : Int32).toInt) = (0 : Nat) := rfl
  have hlength : (shuffle.apply totalInstances).length = totalInstances.length :=
    Shuffle.length_apply _ _
  have hmem : ∀ cs ∈ (shuffle.apply totalInstances).take 10000, OfMonth yearMonth cs :=
    fun cs hcs => hmonth cs
      ((shuffle.apply_perm totalInstances).mem_iff.mp (List.mem_of_mem_take hcs))
  have hstart : Convert2LIBSVM.main jdk shuffle lines =
      (subList (shuffle.apply totalInstances) 0 10000 >>= fun sampledInstances =>
        sampledInstances.mapM (CandleStick.toLIBSVMFormat jdk)) := by
    rw [Convert2LIBSVM.main, hread, ok_bind]
  have hsub (hmany : 10000 ≤ totalInstances.length) :
      subList (shuffle.apply totalInstances) 0 10000 =
        .ok ((shuffle.apply totalInstances).take 10000) := by
    rw [subList_of_le hzero hlimit (Nat.zero_le _) (by omega), List.drop_zero]
  have hmany : ∀ written, Convert2LIBSVM.main jdk shuffle lines = .ok written →
      10000 ≤ totalInstances.length := by
    intro written h
    rw [hstart] at h
    obtain ⟨sampledInstances, hsampled, -⟩ := bind_eq_ok h
    have hsize := (subList_eq_ok hsampled).1
    omega
  have hround : ∀ cs ∈ (shuffle.apply totalInstances).take 10000,
      ∃ line, cs.toLIBSVMFormat jdk = .ok line ∧ Shows jdk numeric cs line :=
    fun cs hcs => shows_written hjdk hnumeric (hmem cs hcs)
  choose! lineOf hline hshows using hround
  have hconverted := mapM_eq_ok hline
  constructor
  · constructor
    · intro hex
      obtain ⟨written, h⟩ := hex
      exact hmany written h
    · intro h
      exact ⟨_, by rw [hstart, hsub h, ok_bind, hconverted]⟩
  · intro written h
    have hsize := hmany written h
    rw [hstart, hsub hsize, ok_bind, hconverted] at h
    rw [← Except.ok.inj h, List.forall₂_map_right_iff]
    exact List.forall₂_same.mpr hshows

end Libsvm

namespace DataPrep

variable {jdk : Jdk} {numeric : JString → Option ℝ} {text : JString} {ticks : List (Tick jdk)}
  {yearMonth : JString}

open Libsvm

/-- A tick of a minute of the month. -/
def Tick.InMonth (yearMonth : JString) (t : Tick jdk) : Prop :=
  ∃ time : TimeText, time.yearMonth = yearMonth ∧ t.slot = time.text

/-- A price above the smallest positive double is not negative zero. -/
theorem Tick.BetweenSentinels.isPrice {t : Tick jdk} (h : t.BetweenSentinels) :
    t.price.IsPrice := by
  refine ⟨t.finite, fun hzero => ?_⟩
  have hvalue : t.value = 0 := by
    rw [Tick.value, hzero]
    simp [Double.toReal, Double.scaled, Double.negativeZero, units]
  exact h.value_pos.ne' hvalue

/-- The candle of a block of the month is a candle of the month, whatever its label. -/
theorem Summary.ofMonth {block : Block jdk} {c : CandleStick} (h : Summary block c)
    (hprices : ∀ t ∈ block, t.BetweenSentinels) (hmonth : ∀ t ∈ block, t.InMonth yearMonth)
    {label : Int32} (hlabel : IsLabel label) : OfMonth yearMonth (c.withLabel label) := by
  obtain ⟨t, ht, -, hhigh⟩ := h.high
  obtain ⟨u, hu, hlow⟩ := h.low
  obtain ⟨v, hv, hclose⟩ := h.close
  have hvMem : v ∈ block := List.mem_of_getLast? hv
  refine ⟨?_, ?_, ?_, ?_, hlabel⟩
  · obtain ⟨time, hyearMonth, hslot⟩ := hmonth t ht.mem
    exact ⟨time, hyearMonth, (h.time t ht.mem).symm.trans hslot⟩
  · exact hhigh ▸ (hprices t ht.mem).isPrice
  · exact hlow ▸ (hprices u hu.mem).isPrice
  · exact hclose ▸ (hprices v hvMem).isPrice

/-- The prepared records of a month are records of the month. -/
theorem ofMonth_labelled (hprices : ∀ t ∈ ticks, t.BetweenSentinels)
    (hmonth : ∀ t ∈ ticks, t.InMonth yearMonth) {cs : List CandleStick}
    (hcs : List.Forall₂ Summary (minuteBlocks ticks) cs) :
    ∀ x ∈ labelled cs.dropLast, OfMonth yearMonth x := by
  intro x hx
  obtain ⟨c, hc, next, -, rfl⟩ := mem_labelled hx
  obtain ⟨block, hblock, hsummary⟩ := exists_of_forall₂ hcs (List.mem_of_mem_dropLast hc)
  have hticks : ∀ t ∈ block, t ∈ ticks := fun t ht => mem_of_mem_minuteBlocks hblock ht
  exact hsummary.ofMonth (fun t ht => hprices t (hticks t ht))
    (fun t ht => hmonth t (hticks t ht)) (isLabel_nextLabel c next)

end DataPrep

section Sample

open DataPrep Libsvm

theorem evenTime_field :
    IsField (lit "20150803 16:35:01.123") ∧ 14 ≤ (lit "20150803 16:35:01.123").length := by
  decide

theorem oddTime_field :
    IsField (lit "20150803 16:36:02.456") ∧ 14 ≤ (lit "20150803 16:36:02.456").length := by
  decide

def evenTick : Tick Jdk.sample := sampleTick (lit "20150803 16:35:01.123") evenTime_field

def oddTick : Tick Jdk.sample := sampleTick (lit "20150803 16:36:02.456") oddTime_field

/-- A tick of one minute, or of the next one. -/
def evenOrOddTick (i : Nat) : Tick Jdk.sample := if i % 2 = 0 then evenTick else oddTick

/-- One tick a minute, with the two minutes in turn. -/
def turningTicks (n : Nat) : List (Tick Jdk.sample) := (List.range n).map evenOrOddTick

/-- The text of these ticks. -/
def turningText (n : Nat) : JString := ((turningTicks n).map fun t => t.line ++ lit "\n").flatten

/-- Only two ticks occur, in turn. -/
theorem mem_turningTicks {n : Nat} {t : Tick Jdk.sample} (ht : t ∈ turningTicks n) :
    t = evenTick ∨ t = oddTick := by
  obtain ⟨i, -, rfl⟩ := List.mem_map.mp ht
  unfold evenOrOddTick
  split_ifs
  · exact Or.inl rfl
  · exact Or.inr rfl

/-- The text of the turning ticks is read back as their lines. -/
theorem readLines_turningText (n : Nat) :
    readLines (turningText n) = (turningTicks n).map Tick.line := by
  have hlines : ∀ line ∈ (turningTicks n).map Tick.line, OneLine line := by
    intro line hline
    obtain ⟨t, ht, rfl⟩ := List.mem_map.mp hline
    have hboth : OneLine evenTick.line ∧ OneLine oddTick.line := by decide +kernel
    obtain rfl | rfl := mem_turningTicks ht
    · exact hboth.1
    · exact hboth.2
  rw [← readLines_written hlines, List.map_map]
  rfl

/-- Every tick makes a block. -/
theorem length_turningBlocks (n : Nat) : (minuteBlocks (turningTicks n)).length = n := by
  have hturn : ∀ i, (evenOrOddTick i).slot ≠ (evenOrOddTick (i + 1)).slot := by
    intro i
    have hslots : evenTick.slot ≠ oddTick.slot := by decide +kernel
    unfold evenOrOddTick
    by_cases heven : i % 2 = 0
    · rw [if_pos heven, if_neg (by omega)]
      exact hslots
    · rw [if_neg heven, if_pos (by omega)]
      exact hslots.symm
  have hblocks : minuteBlocks (turningTicks n) = (turningTicks n).map fun t => [t] := by
    refine List.splitBy_eq_iff.mpr ⟨?_, by simp, by simp, ?_⟩
    · rw [← List.flatMap_def, List.flatMap_singleton']
    · rw [turningTicks, List.map_map, List.isChain_map, List.isChain_iff_getElem]
      intro i hi
      rw [List.getElem_range, List.getElem_range]
      exact ⟨List.cons_ne_nil _ _, List.cons_ne_nil _ _, decide_eq_false (hturn i)⟩
  rw [hblocks, List.length_map, turningTicks, List.length_map, List.length_range]

/-- Both ticks are of one month. -/
theorem inMonth_turningTicks (n : Nat) : ∀ t ∈ turningTicks n, t.InMonth (lit "201508") := by
  intro t ht
  have hslots : evenTick.slot = lit "20150803 16:35" ∧ oddTick.slot = lit "20150803 16:36" := by
    decide +kernel
  obtain rfl | rfl := mem_turningTicks ht
  · exact ⟨⟨lit "201508", lit "03", lit "16", lit "35", by decide, by decide, by decide,
      by decide⟩, rfl, hslots.1⟩
  · exact ⟨⟨lit "201508", lit "03", lit "16", lit "36", by decide, by decide, by decide,
      by decide⟩, rfl, hslots.2⟩

/-- Both prices lie between the sentinels. -/
theorem betweenSentinels_turningTicks (n : Nat) : ∀ t ∈ turningTicks n, t.BetweenSentinels := by
  intro t ht
  obtain rfl | rfl := mem_turningTicks ht
  · exact sampleTick_betweenSentinels _ _
  · exact sampleTick_betweenSentinels _ _

end Sample

open DataPrep Libsvm in
/-- **From ticks to the learner's file.**  On ticks of one month with prices between the
sentinels the second program converts the file of the first exactly when the ticks make
10002 minute blocks.  Its lines show, in the order of the shuffle, the first ten thousand
of the minutes, each labelled with the move to the close of the next one. -/
theorem Convert2LIBSVM.main_ofTicks {jdk : Jdk} (hjdk : jdk.Lawful)
    {numeric : JString → Option ℝ} (hnumeric : NumericText jdk numeric) {text : JString}
    {ticks : List (Tick jdk)} (htext : readLines text = ticks.map Tick.line)
    (hprices : ∀ t ∈ ticks, t.BetweenSentinels) {yearMonth : JString}
    (hmonth : ∀ t ∈ ticks, t.InMonth yearMonth) (shuffle : Shuffle) :
    ((∃ written, Convert2LIBSVM.main jdk shuffle (preparedLines jdk text) = .ok written) ↔
      10002 ≤ (minuteBlocks ticks).length) ∧
    ∃ cs, List.Forall₂ Summary (minuteBlocks ticks) cs ∧
      ∀ written, Convert2LIBSVM.main jdk shuffle (preparedLines jdk text) = .ok written →
        List.Forall₂ (Shows jdk numeric)
          ((shuffle.apply (labelled cs.dropLast)).take 10000) written := by
  obtain ⟨cs, hcs, hlines, hread⟩ := mapM_readRecord_written hjdk htext hprices
  rw [← hlines] at hread
  obtain ⟨hreturns, hshows⟩ := main_shows hjdk hnumeric hread
    (ofMonth_labelled hprices hmonth hcs) shuffle
  refine ⟨hreturns.trans ?_, cs, hcs, hshows⟩
  rw [length_labelled, List.length_dropLast, ← hcs.length_eq]
  omega

open DataPrep Libsvm in
/-- A file of 10002 minutes is converted. -/
theorem Convert2LIBSVM.main_ofTicks_turns :
    ∃ written, Convert2LIBSVM.main Jdk.sample (fun _ => 1)
      (preparedLines Jdk.sample (turningText 10002)) = .ok written := by
  obtain ⟨hreturns, -⟩ := Convert2LIBSVM.main_ofTicks Jdk.sample_lawful sample_numericText
    (readLines_turningText 10002) (betweenSentinels_turningTicks 10002)
    (inMonth_turningTicks 10002) (fun _ => 1)
  exact hreturns.mpr (length_turningBlocks 10002).ge

end Forex
