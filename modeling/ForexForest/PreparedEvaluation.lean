import ForexForest.Evaluation
import ForexForest.PreparedRecords
import ForexForest.TextFile
import ForexForest.TrainingOrder

/-!
# From ticks to the report

The file that the data preparation writes is read by the training programs.  On a
file of ticks with prices between the sentinels, `readLines` gives the written
lines back, and each of them is read as the candle of a block, labelled with the
move to the close of the next one (`mapM_readRecord_written`).

Two records are lost on the way, so `HW2.main` reports on a prepared file exactly
when the ticks make 10002 minute blocks (`HW2.main_prepared`).
-/

namespace Java.Shuffle

variable {α : Type}

/-- Among `n` positions the two shuffles put the same ones in front. -/
def SameFront (shuffle shuffle' : Shuffle) (n k : Nat) : Prop :=
  ∀ p : Fin n,
    (∃ j : Fin n, j.val < k ∧ shuffle n j = p) ↔ ∃ j : Fin n, j.val < k ∧ shuffle' n j = p

/-- An element stands in front of the shuffled list when some front position was
given its place. -/
theorem mem_take_apply (shuffle : Shuffle) {l : List α} {k : Nat} {x : α} :
    x ∈ (shuffle.apply l).take k ↔
      ∃ j : Fin l.length, j.val < k ∧ l.get (shuffle l.length j) = x := by
  rw [List.mem_take_iff_getElem]
  constructor
  · intro hex
    obtain ⟨j, hj, rfl⟩ := hex
    have hlt : j < l.length := by
      rw [length_apply] at hj
      omega
    exact ⟨⟨j, hlt⟩, by simp only; omega, by simp [apply]⟩
  · intro hex
    obtain ⟨j, hj, rfl⟩ := hex
    refine ⟨j.val, ?_, by simp [apply]⟩
    rw [length_apply]
    omega

/-- Different elements stand in front in some order, if the same positions do. -/
theorem take_apply_perm {shuffle shuffle' : Shuffle} {l : List α} {k : Nat} (hdistinct : l.Nodup)
    (h : shuffle.SameFront shuffle' l.length k) :
    ((shuffle.apply l).take k).Perm ((shuffle'.apply l).take k) := by
  have hnodup : ∀ s : Shuffle, ((s.apply l).take k).Nodup := fun s =>
    ((s.apply_perm l).nodup_iff.mpr hdistinct).sublist (List.take_sublist _ _)
  rw [List.perm_ext_iff_of_nodup (hnodup _) (hnodup _)]
  intro x
  rw [mem_take_apply, mem_take_apply]
  constructor
  · intro hex
    obtain ⟨j, hj, rfl⟩ := hex
    obtain ⟨i, hi, hij⟩ := (h (shuffle l.length j)).mp ⟨j, hj, rfl⟩
    exact ⟨i, hi, by rw [hij]⟩
  · intro hex
    obtain ⟨j, hj, rfl⟩ := hex
    obtain ⟨i, hi, hij⟩ := (h (shuffle' l.length j)).mpr ⟨j, hj, rfl⟩
    exact ⟨i, hi, by rw [hij]⟩

/-- The shuffle that exchanges the first two positions. -/
def swapFront : Shuffle
  | _ + 2 => Equiv.swap 0 1
  | 1 => 1
  | 0 => 1

/-- Exchanging the first two positions keeps the same elements in front. -/
theorem sameFront_swapFront {n k : Nat} (hk : 2 ≤ k) : SameFront (fun _ => 1) swapFront n k := by
  intro p
  match n with
  | 0 => exact p.elim0
  | 1 => rfl
  | n + 2 =>
      have hfront : ∀ j : Fin (n + 2), (Equiv.swap 0 1 j).val < k ↔ j.val < k := by
        intro j
        rw [Equiv.swap_apply_def]
        split_ifs with hzero hone
        · rw [hzero, Fin.val_zero, Fin.val_one]
          omega
        · rw [hone, Fin.val_zero, Fin.val_one]
          omega
        · rfl
      constructor
      · intro hex
        obtain ⟨j, hj, rfl⟩ := hex
        exact ⟨Equiv.swap 0 1 j, (hfront j).mpr hj, Equiv.swap_apply_self 0 1 j⟩
      · intro hex
        obtain ⟨j, hj, rfl⟩ := hex
        exact ⟨Equiv.swap 0 1 j, (hfront j).mpr hj, rfl⟩

end Java.Shuffle

namespace Forex

open Java

namespace DataPrep

variable {jdk : Jdk}

/-- The records of a list of block candles: each but the last, labelled with the
move of its close. -/
def labelled (cs : List CandleStick) : List CandleStick :=
  List.zipWith (fun c next => c.withLabel (c.nextLabel next)) cs cs.tail

/-- The last candle has no successor and is not labelled. -/
@[simp] theorem length_labelled (cs : List CandleStick) : (labelled cs).length = cs.length - 1 := by
  rw [labelled, List.length_zipWith, List.length_tail]
  omega

/-- Without its last candle the list loses its last record. -/
theorem labelled_dropLast (cs : List CandleStick) :
    labelled cs.dropLast = (labelled cs).dropLast := by
  apply List.ext_getElem
  · simp
  · intro k hk hk'
    simp [labelled, List.getElem_tail]

/-- Labelling does not touch the times. -/
theorem times_labelled (cs : List CandleStick) :
    (labelled cs).map CandleStick.time = (cs.map CandleStick.time).dropLast := by
  apply List.ext_getElem
  · simp
  · intro k hk hk'
    simp [labelled, CandleStick.withLabel]

/-- A record is a candle of a block with one of the three labels. -/
theorem mem_labelled {cs : List CandleStick} {x : CandleStick} (hx : x ∈ labelled cs) :
    ∃ c ∈ cs, ∃ next ∈ cs, x = c.withLabel (c.nextLabel next) := by
  obtain ⟨k, hk, rfl⟩ := List.mem_iff_getElem.mp hx
  rw [length_labelled] at hk
  have hk' : k < cs.length ∧ k < cs.tail.length := by
    rw [List.length_tail]
    omega
  refine ⟨cs[k], List.getElem_mem hk'.1, cs.tail[k], ?_, ?_⟩
  · exact List.mem_of_mem_tail (List.getElem_mem hk'.2)
  · simp [labelled]

/-- The label that the preparation writes is one of the three. -/
theorem isLabel_nextLabel (c next : CandleStick) : IsLabel (c.nextLabel next) := by
  unfold CandleStick.nextLabel
  split_ifs
  · exact Or.inr (Or.inr rfl)
  · exact Or.inl rfl
  · exact Or.inr (Or.inl rfl)

theorem Tick.isField_of_mem_fields (t : Tick jdk) : ∀ s ∈ t.fields, IsField s := by
  simp only [Tick.fields, List.forall_mem_cons]
  exact ⟨t.pair_field, t.time_field, t.bid_field, fun s hs => t.ask_field s (by simpa using hs)⟩

/-- The candle of a block of one-line ticks can be written. -/
theorem Summary.writable {block : Block jdk} {c : CandleStick} (h : Summary block c)
    (hlines : ∀ t ∈ block, OneLine t.line) : c.Writable := by
  obtain ⟨t, ht, hpair, -⟩ := h.high
  have hline := hlines t ht.mem
  have htokens : tokens t.line = t.fields :=
    tokens_joinFields (List.cons_ne_nil _ _) t.isField_of_mem_fields
  have hfield : ∀ s ∈ t.fields, OneLine s := fun s hs => hline.of_mem_tokens (htokens ▸ hs)
  have htime : c.time = t.time.take 14 := (h.time t ht.mem).symm
  have hslot : t.time.take 14 ≠ [] := by
    rw [← List.length_pos_iff, List.length_take]
    have := t.time_length
    omega
  constructor
  · rw [hpair]
    exact t.pair_field
  · rw [hpair]
    exact hfield _ List.mem_cons_self
  · rw [htime]
    exact ⟨hslot, fun hcomma => t.time_field.2 (List.mem_of_mem_take hcomma)⟩
  · rw [htime]
    exact fun d hd =>
      hfield _ (List.mem_cons_of_mem _ List.mem_cons_self) d (List.mem_of_mem_take hd)

/-- The lines due for the block candles, without their terminators. -/
def recordLines (jdk : Jdk) (cs : List CandleStick) : List JString :=
  List.zipWith (fun c next => joinFields (c.fields jdk (c.nextLabel next))) cs cs.tail

theorem recordLines_cons_cons (a b : CandleStick) (cs : List CandleStick) :
    recordLines jdk (a :: b :: cs) =
      joinFields (a.fields jdk (a.nextLabel b)) :: recordLines jdk (b :: cs) := rfl

/-- The due lines are these with a line feed behind each. -/
theorem dueLines_eq {blocks : List (Block jdk)} {cs : List CandleStick}
    (h : List.Forall₂ Summary blocks cs) :
    dueLines jdk cs = (recordLines jdk cs).map fun line => line ++ lit "\n" := by
  induction h with
  | nil => rfl
  | @cons block c blocks cs hc hcs ih =>
      cases hcs with
      | nil => rfl
      | @cons block' next blocks cs hnext hrest =>
          rw [dueLines_cons_cons, recordLines_cons_cons, List.map_cons, ← ih,
            ← getFeaturesAndLabel_eq_dueLine hc hnext, CandleStick.getFeaturesAndLabel_eq]

section Reading

variable (hjdk : jdk.Lawful) {cs : List CandleStick} (hcs : ∀ c ∈ cs, c.Writable)
include hjdk hcs

/-- The records of writable candles are lines. -/
theorem oneLine_of_mem_recordLines : ∀ line ∈ recordLines jdk cs, OneLine line := by
  intro line hline
  obtain ⟨k, hk, rfl⟩ := List.mem_iff_getElem.mp hline
  rw [recordLines, List.length_zipWith] at hk
  have hk' : k < cs.length := by omega
  simp only [recordLines, List.getElem_zipWith]
  exact OneLine.joinFields
    (CandleStick.oneLine_of_mem_fields hjdk (hcs _ (List.getElem_mem hk')) _)

/-- The reading loops get the labelled candles. -/
theorem mapM_readRecord_recordLines :
    (recordLines jdk cs).mapM (CandleStick.readRecord jdk) = .ok (labelled cs) := by
  induction cs with
  | nil => rfl
  | cons a cs ih =>
      cases cs with
      | nil => rfl
      | cons b cs =>
          have ha := CandleStick.readRecord_fields hjdk (hcs a List.mem_cons_self) (a.nextLabel b)
          rw [recordLines_cons_cons, List.mapM_cons, ha, ok_bind,
            ih fun c hc => hcs c (List.mem_cons_of_mem a hc)]
          rfl

end Reading

/-- A price above the lower sentinel is positive. -/
theorem Tick.BetweenSentinels.value_pos {t : Tick jdk} (h : t.BetweenSentinels) : 0 < t.value := by
  have hmin : 0 < Double.MIN_VALUE.toReal := by
    simp [Double.toReal, Double.scaled, Double.MIN_VALUE, units]
  exact hmin.trans h.1

/-- With all prices between the sentinels the lines of all blocks but the last are
written. -/
theorem written_eq_dueLines {ticks : List (Tick jdk)}
    (hprices : ∀ t ∈ ticks, t.BetweenSentinels) :
    ∃ cs, List.Forall₂ Summary (minuteBlocks ticks) cs ∧
      (main jdk (ticks.map Tick.line)).written = dueLines jdk cs.dropLast := by
  obtain ⟨cs, ds, hall, hwritten, hend, hopen⟩ := main_summaries ticks
  have hone := hend (exception_eq_none hprices)
  refine ⟨cs ++ ds, hall, ?_⟩
  match ds, hone with
  | [], _ =>
      have hticks : ticks = [] := by_contra fun hne => hopen hne rfl
      have hcs : cs.length = 0 := by simpa [hticks, minuteBlocks] using hall.length_eq.symm
      rw [hwritten, List.length_eq_zero_iff.mp hcs]
      rfl
  | [d], _ => rw [hwritten, List.dropLast_concat]

/-- The ticks of the blocks are the ticks. -/
theorem mem_of_mem_minuteBlocks {ticks : List (Tick jdk)} {block : Block jdk} {t : Tick jdk}
    (hblock : block ∈ minuteBlocks ticks) (ht : t ∈ block) : t ∈ ticks := by
  have hflatten : (minuteBlocks ticks).flatten = ticks := List.flatten_splitBy _ _
  rw [← hflatten]
  exact List.mem_flatten_of_mem hblock ht

/-- The candles of the blocks of a text file can be written. -/
theorem writable_of_summaries {text : JString} {ticks : List (Tick jdk)}
    (htext : readLines text = ticks.map Tick.line) {cs : List CandleStick}
    (hcs : List.Forall₂ Summary (minuteBlocks ticks) cs) : ∀ c ∈ cs, c.Writable := by
  intro c hc
  obtain ⟨block, hblock, hsummary⟩ := exists_of_forall₂ hcs hc
  refine hsummary.writable fun t ht => ?_
  have hline : t.line ∈ readLines text := by
    rw [htext]
    exact List.mem_map_of_mem (mem_of_mem_minuteBlocks hblock ht)
  exact oneLine_of_mem_readLines hline

/-- A relation between two lists holds between them without their last elements. -/
theorem forall₂_dropLast {α β : Type} {R : α → β → Prop} {l : List α} {m : List β}
    (h : List.Forall₂ R l m) : List.Forall₂ R l.dropLast m.dropLast := by
  rw [List.dropLast_eq_take, List.dropLast_eq_take, ← h.length_eq]
  exact List.forall₂_take (l.length - 1) h

/-- **The prepared file.**  The lines that are read from it are readable, and their
records are the labelled candles of all minute blocks but the last. -/
theorem mapM_readRecord_written (hjdk : jdk.Lawful) {text : JString} {ticks : List (Tick jdk)}
    (htext : readLines text = ticks.map Tick.line)
    (hprices : ∀ t ∈ ticks, t.BetweenSentinels) :
    ∃ cs, List.Forall₂ Summary (minuteBlocks ticks) cs ∧
      readLines (main jdk (readLines text)).written.flatten = recordLines jdk cs.dropLast ∧
      (recordLines jdk cs.dropLast).mapM (CandleStick.readRecord jdk) =
        .ok (labelled cs.dropLast) := by
  obtain ⟨cs, hcs, hwritten⟩ := written_eq_dueLines hprices
  have hwritable : ∀ c ∈ cs.dropLast, c.Writable := fun c hc =>
    writable_of_summaries htext hcs c (List.mem_of_mem_dropLast hc)
  refine ⟨cs, hcs, ?_, mapM_readRecord_recordLines hjdk hwritable⟩
  rw [htext, hwritten, dueLines_eq (forall₂_dropLast hcs),
    readLines_written (oneLine_of_mem_recordLines hjdk hwritable)]

/-- The minutes of the ticks never go back. -/
def Chronological (ticks : List (Tick jdk)) : Prop :=
  ticks.Pairwise fun a b => a.slot ≤ b.slot

/-- The candles of chronological ticks are later and later: of two neighbouring
blocks the second one is. -/
theorem Chronological.times_increase {ticks : List (Tick jdk)} (h : Chronological ticks)
    {cs : List CandleStick} (hcs : List.Forall₂ Summary (minuteBlocks ticks) cs) :
    (cs.map CandleStick.time).Pairwise (· < ·) := by
  have hpair := h
  rw [Chronological, ← List.flatten_splitBy (fun a b : Tick jdk => decide (a.slot = b.slot)) ticks,
    List.pairwise_flatten] at hpair
  have hcuts := List.isChain_getLast_head_splitBy
    (fun a b : Tick jdk => decide (a.slot = b.slot)) ticks
  rw [List.isChain_iff_getElem] at hcuts
  rw [← List.isChain_iff_pairwise, List.isChain_iff_getElem]
  intro i hi
  have hi' : i + 1 < (minuteBlocks ticks).length := by
    rwa [hcs.length_eq, ← List.length_map CandleStick.time]
  have hi0 : i < (minuteBlocks ticks).length := by omega
  obtain ⟨hne, hne', hcut⟩ := hcuts i hi'
  have hle := List.pairwise_iff_getElem.mp hpair.2 i (i + 1) hi0 hi' (Nat.lt_succ_self i)
    _ (List.getLast_mem hne) _ (List.head_mem hne')
  have hlt := lt_of_le_of_ne hle (by simpa using hcut)
  have htime := (hcs.get hi0 (by simpa using Nat.lt_of_succ_lt hi)).time _ (List.getLast_mem hne)
  have htime' := (hcs.get hi' (by simpa using hi)).time _ (List.head_mem hne')
  rw [htime, htime'] at hlt
  simpa using hlt

/-- They have different times. -/
theorem Chronological.times_nodup {ticks : List (Tick jdk)} (h : Chronological ticks)
    {cs : List CandleStick} (hcs : List.Forall₂ Summary (minuteBlocks ticks) cs) :
    (cs.map CandleStick.time).Nodup :=
  (h.times_increase hcs).imp fun hlt => ne_of_lt hlt

end DataPrep

/-- The front of what a reading loop returns is what it returns on the front. -/
theorem mapM_take {α β : Type} {f : α → Except Exception β} {l : List α} {results : List β}
    (h : l.mapM f = .ok results) (n : Nat) : (l.take n).mapM f = .ok (results.take n) := by
  induction l generalizing results n with
  | nil =>
      obtain rfl : [] = results := Except.ok.inj h
      rw [List.take_nil, List.take_nil]
      rfl
  | cons a l ih =>
      rw [List.mapM_cons] at h
      obtain ⟨b, hb, h⟩ := bind_eq_ok h
      obtain ⟨rest, hrest, h⟩ := bind_eq_ok h
      rw [← Except.ok.inj h]
      cases n with
      | zero => rfl
      | succ n =>
          rw [List.take_succ_cons, List.take_succ_cons, List.mapM_cons, hb, ok_bind, ih hrest]
          rfl

namespace DataPrep

variable {jdk : Jdk} {text : JString} {ticks : List (Tick jdk)}

/-- The prepared file of a text of ticks, line by line. -/
def preparedLines (jdk : Jdk) (text : JString) : List JString :=
  readLines (main jdk (readLines text)).written.flatten

/-- Of 10002 minute blocks or more, the first 10000 prepared lines are read as the
labelled candles of the first 10000 blocks. -/
theorem mapM_take_preparedLines (hjdk : jdk.Lawful)
    (htext : readLines text = ticks.map Tick.line) (hprices : ∀ t ∈ ticks, t.BetweenSentinels)
    (hmany : 10002 ≤ (minuteBlocks ticks).length) :
    ∃ cs, List.Forall₂ Summary (minuteBlocks ticks) cs ∧
      ((labelled cs).take 10000).length = TOTAL_INSTANCES ∧
      ((preparedLines jdk text).take TOTAL_INSTANCES).mapM (CandleStick.readRecord jdk) =
        .ok ((labelled cs).take 10000) := by
  obtain ⟨cs, hcs, hlines, hread⟩ := mapM_readRecord_written hjdk htext hprices
  have hlength := hcs.length_eq
  have hfront : (labelled cs.dropLast).take 10000 = (labelled cs).take 10000 := by
    rw [labelled_dropLast, List.dropLast_eq_take, List.take_take, length_labelled]
    congr 1
    omega
  refine ⟨cs, hcs, ?_, ?_⟩
  · rw [List.length_take, length_labelled, TOTAL_INSTANCES]
    omega
  · rw [preparedLines, hlines, ← hfront]
    exact mapM_take hread TOTAL_INSTANCES

end DataPrep

namespace DataPrep

section Sample

/-- A minute of the sample file: thirteen zeros and a character of its own. -/
def minuteTime (i : Nat) : JString := List.replicate 13 48 ++ [Fin.ofNat 65536 (1000 + i % 60000)]

theorem minuteTime_chars (i : Nat) : ∀ c ∈ minuteTime i, 48 ≤ c.val := by
  intro c hc
  rcases List.mem_append.mp hc with hc | hc
  · rw [List.eq_of_mem_replicate hc]
    decide
  · rw [List.mem_singleton.mp hc, Fin.val_ofNat]
    omega

theorem minuteTime_field (i : Nat) : IsField (minuteTime i) ∧ 14 ≤ (minuteTime i).length :=
  ⟨(isField_of_above (by simp [minuteTime]) fun c hc => by
    have := minuteTime_chars i c hc
    omega).1, by simp [minuteTime]⟩

/-- The only tick of that minute. -/
def minuteTick (i : Nat) : Tick Jdk.sample := sampleTick (minuteTime i) (minuteTime_field i)

/-- One tick a minute. -/
def minuteTicks (n : Nat) : List (Tick Jdk.sample) := (List.range n).map minuteTick

/-- The text of these ticks. -/
def minuteText (n : Nat) : JString :=
  ((minuteTicks n).map fun t => t.line ++ lit "\n").flatten

theorem slot_minuteTick (i : Nat) : (minuteTick i).slot = minuteTime i := by
  change (minuteTime i).take 14 = minuteTime i
  exact List.take_of_length_le (by simp [minuteTime])

/-- The minutes of the sample come one after the other, as their last characters do.
-/
theorem slot_lt {i j : Nat} (hij : i < j) (hj : j < 60000) :
    (minuteTick i).slot < (minuteTick j).slot := by
  rw [slot_minuteTick, slot_minuteTick, minuteTime, minuteTime]
  apply List.append_left_lt
  refine List.cons_lt_cons_iff.mpr (Or.inl ?_)
  rw [Fin.lt_def, Fin.val_ofNat, Fin.val_ofNat]
  omega

/-- So the ticks of the sample are in the order of time. -/
theorem pairwise_minuteTicks {n : Nat} (hn : n ≤ 60000) :
    (minuteTicks n).Pairwise fun a b => a.slot < b.slot := by
  rw [minuteTicks, List.pairwise_map]
  refine List.pairwise_lt_range.imp_of_mem fun {i j} _ hj hij => ?_
  exact slot_lt hij (lt_of_lt_of_le (List.mem_range.mp hj) hn)

/-- The text of the sample is read back as its tick lines. -/
theorem readLines_minuteText (n : Nat) :
    readLines (minuteText n) = (minuteTicks n).map Tick.line := by
  have hlines : ∀ line ∈ (minuteTicks n).map Tick.line, OneLine line := by
    intro line hline
    obtain ⟨t, ht, rfl⟩ := List.mem_map.mp hline
    obtain ⟨i, -, rfl⟩ := List.mem_map.mp ht
    have htime : OneLine (minuteTime i) :=
      (isField_of_above (minuteTime_field i).1.1 fun c hc =>
        le_trans (by omega) (minuteTime_chars i c hc)).2
    apply OneLine.joinFields
    change ∀ s ∈ [lit "USD/JPY", minuteTime i, lit "1.5", lit "2.0"], OneLine s
    exact List.forall_mem_cons.mpr ⟨by decide, List.forall_mem_cons.mpr ⟨htime, by decide⟩⟩
  rw [← readLines_written hlines, List.map_map]
  rfl

/-- Every tick makes a block. -/
theorem length_minuteBlocks {n : Nat} (hn : n ≤ 60000) :
    (minuteBlocks (minuteTicks n)).length = n := by
  have hblocks : minuteBlocks (minuteTicks n) = (minuteTicks n).map fun t => [t] := by
    refine List.splitBy_eq_iff.mpr ⟨?_, by simp, by simp, ?_⟩
    · rw [← List.flatMap_def, List.flatMap_singleton']
    · rw [List.isChain_map]
      refine (pairwise_minuteTicks hn).isChain.imp fun a b hlt => ?_
      exact ⟨List.cons_ne_nil a [], List.cons_ne_nil b [], decide_eq_false (ne_of_lt hlt)⟩
  rw [hblocks, List.length_map, minuteTicks, List.length_map, List.length_range]

theorem chronological_minuteTicks {n : Nat} (hn : n ≤ 60000) : Chronological (minuteTicks n) :=
  (pairwise_minuteTicks hn).imp le_of_lt

/-- All prices of the sample lie between the sentinels. -/
theorem betweenSentinels_minuteTicks (n : Nat) : ∀ t ∈ minuteTicks n, t.BetweenSentinels := by
  intro t ht
  obtain ⟨i, -, rfl⟩ := List.mem_map.mp ht
  exact sampleTick_betweenSentinels _ _

end Sample

end DataPrep

section Prepared

open DataPrep

variable (D : Type) [Arith D] {jdk : Jdk} {text : JString} {ticks : List (Tick jdk)}
  {args : List JString}

/-- **From ticks to the report.**  On the file prepared from ticks with prices
between the sentinels the single-tree program reports exactly when the ticks make
10002 minute blocks, two more than it asks for.  It is then trained and tested on
the first 10000 blocks, labelled with the move to the close of the next block. -/
theorem HW2.main_prepared (hjdk : jdk.Lawful) (htext : readLines text = ticks.map Tick.line)
    (hprices : ∀ t ∈ ticks, t.BetweenSentinels) (shuffle : Shuffle) (args : List JString) :
    ((∃ written, HW2.main D jdk shuffle args (preparedLines jdk text) = .ok written) ↔
      2 ≤ args.length ∧ 10002 ≤ (minuteBlocks ticks).length) ∧
    ∀ written, HW2.main D jdk shuffle args (preparedLines jdk text) = .ok written →
      ∃ cs testingInstances trainingInstances matchCount,
        List.Forall₂ Summary (minuteBlocks ticks) cs ∧
        testingInstances.length = 2000 ∧ trainingInstances.length = 8000 ∧
        (testingInstances ++ trainingInstances).Perm ((labelled cs).take 10000) ∧
        Reports jdk (fun cs label => HW2.Answers D trainingInstances cs label ∧ IsLabel label)
          testingInstances matchCount written := by
  have hblocks : ∀ written, HW2.main D jdk shuffle args (preparedLines jdk text) = .ok written →
      2 ≤ args.length ∧ 10002 ≤ (minuteBlocks ticks).length := by
    intro written h
    obtain ⟨hargs, records, hread, hlength⟩ := HW2.records_of_main D shuffle h
    obtain ⟨cs, hcs, hlines, -⟩ := mapM_readRecord_written hjdk htext hprices
    have hrounds := (forall₂_of_mapM hread).length_eq
    have hsize : (preparedLines jdk text).length = cs.length - 1 - 1 := by
      rw [preparedLines, hlines, recordLines, List.length_zipWith, List.length_tail,
        List.length_dropLast]
      omega
    rw [List.length_take, hlength, hsize, ← hcs.length_eq, TOTAL_INSTANCES] at hrounds
    exact ⟨hargs, by omega⟩
  constructor
  · constructor
    · intro hex
      obtain ⟨written, h⟩ := hex
      exact hblocks written h
    · intro hall
      obtain ⟨hargs, hmany⟩ := hall
      obtain ⟨cs, -, hlength, hread⟩ := mapM_take_preparedLines hjdk htext hprices hmany
      obtain ⟨-, written, hmain, -⟩ := HW2.main_of_records D shuffle hargs hread hlength
      exact ⟨written, hmain⟩
  · intro written h
    obtain ⟨hargs, hmany⟩ := hblocks written h
    obtain ⟨cs, hcs, hlength, hread⟩ := mapM_take_preparedLines hjdk htext hprices hmany
    obtain ⟨matchCount, written', hmain, predictedLabels, hanswers, hcount, hwritten⟩ :=
      HW2.main_of_records D shuffle hargs hread hlength
    obtain rfl := Except.ok.inj (hmain.symm.trans h)
    have hperm := shuffle.apply_perm ((labelled cs).take 10000)
    have hlabels : ∀ x ∈ (shuffle.apply ((labelled cs).take 10000)).drop 2000,
        IsLabel x.label := by
      intro x hx
      obtain ⟨c, -, next, -, rfl⟩ := mem_labelled
        (List.mem_of_mem_take (hperm.mem_iff.mp (List.mem_of_mem_drop hx)))
      exact isLabel_nextLabel c next
    refine ⟨cs, (shuffle.apply ((labelled cs).take 10000)).take 2000,
      (shuffle.apply ((labelled cs).take 10000)).drop 2000, matchCount, hcs, ?_, ?_, ?_,
      predictedLabels, ?_, hcount, hwritten⟩
    · rw [List.length_take, hperm.length_eq, hlength]
      rfl
    · rw [List.length_drop, hperm.length_eq, hlength]
      rfl
    · rwa [List.take_append_drop]
    · refine hanswers.imp fun c label hanswer => ⟨hanswer, ?_⟩
      obtain ⟨x, hx, rfl⟩ := hanswer.2
      exact hlabels x hx

/-- One tick in each of 10002 minutes is enough. -/
theorem HW2.main_prepared_minutes :
    ∃ written, HW2.main Exact Jdk.sample (fun _ => 1) [lit "in", lit "out"]
      (preparedLines Jdk.sample (minuteText 10002)) = .ok written :=
  (HW2.main_prepared Exact Jdk.sample_lawful (readLines_minuteText 10002)
    (betweenSentinels_minuteTicks 10002) (fun _ => 1) [lit "in", lit "out"]).1.mpr
    ⟨le_rfl, (length_minuteBlocks (by omega)).ge⟩

end Prepared

section HeldOut

variable {D : Type} [Arith D]

open Arith DataPrep

/-- What `HW2.main` reports about records with different times depends on the
instances that it holds out and not on their order or that of the others. -/
theorem HW2.report_perm (hpure : PureEntropy D) {jdk : Jdk} {shuffle shuffle' : Shuffle}
    {args lines : List JString} {records : List CandleStick} (hargs : 2 ≤ args.length)
    (hread : (lines.take TOTAL_INSTANCES).mapM (CandleStick.readRecord jdk) = .ok records)
    (hlength : records.length = TOTAL_INSTANCES) (htimes : (records.map CandleStick.time).Nodup)
    (hlabels : ∀ cs ∈ records, IsLabel cs.label)
    (hsame : ((shuffle.apply records).take 2000).Perm ((shuffle'.apply records).take 2000)) :
    ∃ written written' last,
      HW2.main D jdk shuffle args lines = .ok (written ++ [last]) ∧
      HW2.main D jdk shuffle' args lines = .ok (written' ++ [last]) ∧ written.Perm written' := by
  obtain ⟨htest, -, hmain⟩ := HW2.main_eq D shuffle hargs hread hlength
  obtain ⟨htest', -, hmain'⟩ := HW2.main_eq D shuffle' hargs hread hlength
  have hperm := shuffle.apply_perm records
  have htrain : ((shuffle.apply records).drop 2000).Perm ((shuffle'.apply records).drop 2000) := by
    have hall := hperm.trans (shuffle'.apply_perm records).symm
    rw [← List.take_append_drop 2000 (shuffle.apply records),
      ← List.take_append_drop 2000 (shuffle'.apply records)] at hall
    exact (List.perm_append_left_iff _).mp ((hsame.symm.append_right _).trans hall)
  have htrainTimes : (((shuffle.apply records).drop 2000).map CandleStick.time).Nodup :=
    ((hperm.map _).nodup_iff.mpr htimes).sublist ((List.drop_sublist _ _).map _)
  have htrainLabels : ∀ cs ∈ (shuffle.apply records).drop 2000, IsLabel cs.label := fun cs hcs =>
    hlabels cs (hperm.mem_iff.mp (List.mem_of_mem_drop hcs))
  have hfind := findMatch_growTree_perm hpure false [1, 2, 3] htrain.symm htrainTimes htrainLabels
  have hpredicted : RandomForest.predicted
      (SingleTree.buildDTree ((shuffle.apply records).drop 2000) : DTNode D) =
      RandomForest.predicted
        (SingleTree.buildDTree ((shuffle'.apply records).drop 2000) : DTNode D) := by
    funext cs
    simp only [RandomForest.predicted, SingleTree.buildDTree, hfind]
  rw [writeReport_eq htest ((List.length_map _).trans htest), hpredicted] at hmain
  rw [writeReport_eq htest' ((List.length_map _).trans htest')] at hmain'
  simp only [← List.map_prod_left_eq_zip, List.map_map] at hmain hmain'
  refine ⟨_, _, _, hmain, ?_, hsame.map _⟩
  rw [hmain', (hsame.map _).countP_eq]

/-- **The shuffle of the single-tree program.**  On the file prepared from
chronological ticks, two shuffles that hold out the same positions give the same
report up to the order of its lines. -/
theorem HW2.main_heldOut (hpure : PureEntropy D) {jdk : Jdk} (hjdk : jdk.Lawful) {text : JString}
    {ticks : List (Tick jdk)} (htext : readLines text = ticks.map Tick.line)
    (hprices : ∀ t ∈ ticks, t.BetweenSentinels) (hchron : Chronological ticks)
    (hmany : 10002 ≤ (minuteBlocks ticks).length) {args : List JString} (hargs : 2 ≤ args.length)
    {shuffle shuffle' : Shuffle} (hsame : shuffle.SameFront shuffle' TOTAL_INSTANCES 2000) :
    ∃ written written' last,
      HW2.main D jdk shuffle args (preparedLines jdk text) = .ok (written ++ [last]) ∧
      HW2.main D jdk shuffle' args (preparedLines jdk text) = .ok (written' ++ [last]) ∧
      written.Perm written' := by
  obtain ⟨cs, hcs, hlength, hread⟩ := mapM_take_preparedLines hjdk htext hprices hmany
  have htimes : (((labelled cs).take 10000).map CandleStick.time).Nodup := by
    have hall := hchron.times_nodup hcs
    rw [List.map_take, times_labelled]
    exact hall.sublist ((List.take_sublist _ _).trans (List.dropLast_sublist _))
  refine HW2.report_perm hpure hargs hread hlength htimes ?_ ?_
  · intro x hx
    obtain ⟨c, -, next, -, rfl⟩ := mem_labelled (List.mem_of_mem_take hx)
    exact isLabel_nextLabel c next
  · exact Shuffle.take_apply_perm (List.Nodup.of_map _ htimes) (hlength.symm ▸ hsame)

/-- Exchanging the first two positions holds out what moving nothing does. -/
theorem HW2.main_heldOut_minutes :
    ∃ written written' last,
      HW2.main Exact Jdk.sample (fun _ => 1) [lit "in", lit "out"]
        (preparedLines Jdk.sample (minuteText 10002)) = .ok (written ++ [last]) ∧
      HW2.main Exact Jdk.sample Shuffle.swapFront [lit "in", lit "out"]
        (preparedLines Jdk.sample (minuteText 10002)) = .ok (written' ++ [last]) ∧
      written.Perm written' :=
  HW2.main_heldOut Exact.pureEntropy Jdk.sample_lawful
    (readLines_minuteText 10002) (betweenSentinels_minuteTicks 10002)
    (chronological_minuteTicks (by omega)) (length_minuteBlocks (by omega)).ge le_rfl
    (Shuffle.sameFront_swapFront (by omega))

end HeldOut

end Forex
