import ForexForest.MinuteBlocks

/-!
# The records that the data preparation writes

Two facts about whole runs of `DataPrep.main` on well-formed tick lines.

* `written_prefix_due` — whatever the prices, the lines written are a prefix of
  the lines that are due, one for each minute block with a successor;
* `records_complete_iff` — when every price lies strictly between the sentinels
  the run reaches the end of the file, but the candle of the last block is never
  built, so the record of the block before it is lost: the output is complete
  only for a file of at most one block.
-/

namespace Forex

open Java Scan

namespace DataPrep

variable {jdk : Jdk}

/-- The ticks of one block are of one minute. -/
theorem sameSlot_of_mem_minuteBlocks {ticks : List (Tick jdk)} {block : Block jdk}
    (hblock : block ∈ minuteBlocks ticks) {t u : Tick jdk} (ht : t ∈ block) (hu : u ∈ block) :
    t.slot = u.slot := by
  have hchain := List.isChain_of_mem_splitBy hblock
  simp only [decide_eq_true_eq] at hchain
  have htrans : IsTrans (Tick jdk) fun a b => a.slot = b.slot := ⟨fun _ _ _ => Eq.trans⟩
  have hsymm : Std.Symm fun a b : Tick jdk => a.slot = b.slot := ⟨fun _ _ => Eq.symm⟩
  have hpair := List.isChain_iff_pairwise.mp hchain
  exact List.Pairwise.forall_of_forall (R := fun a b : Tick jdk => a.slot = b.slot)
    (fun _ _ => rfl) hpair ht hu

/-- Every minute block has a candle. -/
theorem exists_summary {ticks : List (Tick jdk)} {block : Block jdk}
    (hblock : block ∈ minuteBlocks ticks) : ∃ c, Summary block c := by
  have hne : block ≠ [] := List.ne_nil_of_mem_splitBy hblock
  obtain ⟨top, htop⟩ := exists_isFirstMax Tick.value hne
  obtain ⟨bottom, hbottom⟩ := exists_isFirstMax (fun t : Tick jdk => -t.value) hne
  refine ⟨⟨top.currencyPair, top.slot, top.price, bottom.price, (block.getLast hne).price, 0⟩,
    fun t ht => sameSlot_of_mem_minuteBlocks hblock ht htop.mem, ⟨top, htop, rfl, rfl⟩,
    ⟨bottom, hbottom, rfl⟩, ⟨_, List.getLast?_eq_some_getLast hne, rfl⟩, rfl⟩

/-- Every block of a file has a candle. -/
theorem exists_summaries {ticks : List (Tick jdk)} {blocks : List (Block jdk)}
    (hblocks : ∀ block ∈ blocks, block ∈ minuteBlocks ticks) :
    ∃ cs, List.Forall₂ Summary blocks cs := by
  induction blocks with
  | nil => exact ⟨[], List.Forall₂.nil⟩
  | cons block blocks ih =>
      obtain ⟨c, hc⟩ := exists_summary (hblocks block List.mem_cons_self)
      obtain ⟨cs, hcs⟩ := ih fun b hb => hblocks b (List.mem_cons_of_mem _ hb)
      exact ⟨c :: cs, List.Forall₂.cons hc hcs⟩

/-- In the candle of a block the close lies between the low and the high. -/
theorem Summary.low_le_close_le_high {block : Block jdk} {c : CandleStick}
    (h : Summary block c) :
    c.low.toReal ≤ c.close.toReal ∧ c.close.toReal ≤ c.high.toReal := by
  obtain ⟨top, htop, -, hhigh⟩ := h.high
  obtain ⟨bottom, hbottom, hlow⟩ := h.low
  obtain ⟨last, hlast, hclose⟩ := h.close
  have hmem := List.mem_of_getLast? hlast
  rw [hhigh, hlow, hclose]
  exact ⟨neg_le_neg_iff.mp (hbottom.le hmem), htop.le hmem⟩

/-- The candles of all blocks, whose first ones stand behind the lines that any
run has written. -/
theorem main_summaries (ticks : List (Tick jdk)) :
    ∃ cs ds, List.Forall₂ Summary (minuteBlocks ticks) (cs ++ ds) ∧
      (main jdk (ticks.map Tick.line)).written = dueLines jdk cs ∧
      ((main jdk (ticks.map Tick.line)).exception = none → ds.length ≤ 1) ∧
      (ticks ≠ [] → ds ≠ []) := by
  cases ticks with
  | nil => exact ⟨[], [], List.Forall₂.nil, rfl, by simp, by simp⟩
  | cons t rest =>
      obtain ⟨cs, hcs, hwritten, hlt, hend⟩ := (main_ends t rest).closed
      obtain ⟨ds, hds⟩ : ∃ ds, List.Forall₂ Summary
          ((minuteBlocks (t :: rest)).drop cs.length) ds :=
        exists_summaries fun _ => List.mem_of_mem_drop
      have hall : List.Forall₂ Summary (minuteBlocks (t :: rest)) (cs ++ ds) := by
        rw [← List.take_append_drop cs.length (minuteBlocks (t :: rest))]
        exact List.rel_append hcs hds
      have hlen := hall.length_eq
      rw [List.length_append] at hlen
      refine ⟨cs, ds, hall, hwritten, fun hex => ?_, fun _ => ?_⟩
      · have := hend hex
        omega
      · rintro rfl
        simp at hlen
        omega

/-- **Every written candle is right.**  The lines that a run writes, up to the
end of the file or to an exception, are a prefix of the lines due for the minute
blocks: minute, pair of the first tick of maximal price, maximum, minimum, last
price, and the move to the close of the next block.  The blocks hold every tick
once and in order, and the close of a block lies between its low and its high. -/
theorem written_prefix_due (ticks : List (Tick jdk)) :
    (minuteBlocks ticks).flatten = ticks ∧
    ∃ cs, List.Forall₂ Summary (minuteBlocks ticks) cs ∧
      (main jdk (ticks.map Tick.line)).written <+: dueLines jdk cs ∧
      ∀ c ∈ cs, c.low.toReal ≤ c.close.toReal ∧ c.close.toReal ≤ c.high.toReal := by
  obtain ⟨cs, ds, hall, hwritten, -, -⟩ := main_summaries ticks
  refine ⟨List.flatten_splitBy _ _, cs ++ ds, hall, ?_, ?_⟩
  · rw [hwritten]
    exact dueLines_prefix cs ds
  · intro c hc
    obtain ⟨block, -, hblock⟩ := exists_of_forall₂ hall hc
    exact hblock.low_le_close_le_high

/-- A price strictly between the sentinels. -/
def Tick.BetweenSentinels (t : Tick jdk) : Prop :=
  Double.MIN_VALUE.toReal < t.value ∧ t.value < Double.MAX_VALUE.toReal

/-- Prices between the sentinels let the run reach the end of the file. -/
theorem exception_eq_none {ticks : List (Tick jdk)}
    (hprices : ∀ t ∈ ticks, t.BetweenSentinels) :
    (main jdk (ticks.map Tick.line)).exception = none := by
  cases ticks with
  | nil => rfl
  | cons t rest =>
      by_contra hex
      obtain ⟨block, hblock, hunset⟩ := (main_ends t rest).unset hex
      obtain ⟨u, hu⟩ := List.exists_mem_of_ne_nil block (List.ne_nil_of_mem_splitBy hblock)
      have hmem : u ∈ t :: rest := by
        rw [← List.flatten_splitBy (fun a b : Tick jdk => decide (a.slot = b.slot)) (t :: rest)]
        exact List.mem_flatten_of_mem hblock hu
      rcases hunset with htop | hbottom
      · exact topTick_eq_none.mp htop u hu (hprices u hmem).1
      · exact bottomTick_eq_none.mp hbottom u hu (hprices u hmem).2

/-- **What is lost at the end of the file.**  With all prices between the
sentinels the run ends normally and has written the lines due between all
blocks but the last.  It has written every due line exactly when there is at
most one block, that is when none is due. -/
theorem records_complete_iff (ticks : List (Tick jdk))
    (hprices : ∀ t ∈ ticks, t.BetweenSentinels) :
    (main jdk (ticks.map Tick.line)).exception = none ∧
    (∃ cs, List.Forall₂ Summary (minuteBlocks ticks) cs ∧
      (main jdk (ticks.map Tick.line)).written = dueLines jdk cs.dropLast) ∧
    ((main jdk (ticks.map Tick.line)).written.length = (minuteBlocks ticks).length - 1 ↔
      (minuteBlocks ticks).length ≤ 1) := by
  have hex := exception_eq_none hprices
  obtain ⟨cs, ds, hall, hwritten, hend, hopen⟩ := main_summaries ticks
  have hlen := hall.length_eq
  have hone := hend hex
  have hdrop : cs = (cs ++ ds).dropLast := by
    match ds, hone with
    | [], _ =>
        have hticks : ticks = [] := by_contra fun hne => hopen hne rfl
        have hcs : cs.length = 0 := by simpa [hticks, minuteBlocks] using hlen.symm
        rw [List.length_eq_zero_iff.mp hcs]
        rfl
    | [d], _ => rw [List.dropLast_concat]
  refine ⟨hex, ⟨cs ++ ds, hall, ?_⟩, ?_⟩
  · rw [← hdrop, hwritten]
  · rw [hwritten, dueLines_length, hdrop, List.length_dropLast, hlen]
    omega

/-- A tick of the sample platform. -/
def sampleTick (time : JString) (htime : IsField time ∧ 14 ≤ time.length) : Tick Jdk.sample where
  currencyPair := lit "USD/JPY"
  time := time
  bid := lit "1.5"
  ask := some (lit "2.0")
  price := Double.oneAndHalf
  pair_field := by decide
  time_field := htime.1
  bid_field := by decide
  ask_field := by decide
  time_length := htime.2
  parses := by decide +kernel
  finite := by decide

theorem sampleTick_betweenSentinels (time : JString) (htime : IsField time ∧ 14 ≤ time.length) :
    (sampleTick time htime).BetweenSentinels := by
  constructor
  · exact (lt_value_iff (by decide) (sampleTick time htime)).mp
      (by decide +kernel : Double.MIN_VALUE.lt Double.oneAndHalf = true)
  · exact (value_lt_iff (by decide) (sampleTick time htime)).mp
      (by decide +kernel : Double.oneAndHalf.lt Double.MAX_VALUE = true)

/-- A tick at 16:35 and a tick at 16:36. -/
def twoMinutes : List (Tick Jdk.sample) :=
  [sampleTick (lit "20150803 16:35:01.123") (by decide),
   sampleTick (lit "20150803 16:36:02.456") (by decide)]

/-- Two minutes make two blocks, and the record that is due is not written. -/
theorem twoMinutes_lose_a_record :
    (∀ t ∈ twoMinutes, t.BetweenSentinels) ∧ (minuteBlocks twoMinutes).length = 2 ∧
    (main Jdk.sample (twoMinutes.map Tick.line)).written.length ≠
      (minuteBlocks twoMinutes).length - 1 := by
  refine ⟨?_, by decide +kernel, by decide +kernel⟩
  intro t ht
  simp only [twoMinutes, List.mem_cons, List.not_mem_nil, or_false] at ht
  rcases ht with rfl | rfl <;> exact sampleTick_betweenSentinels _ _

/-- Five ticks in three minutes. -/
def fiveTicks : List (Tick Jdk.sample) :=
  [sampleTick (lit "20150803 16:35:01.123") (by decide),
   sampleTick (lit "20150803 16:35:17.004") (by decide),
   sampleTick (lit "20150803 16:36:02.456") (by decide),
   sampleTick (lit "20150803 16:36:40.789") (by decide),
   sampleTick (lit "20150803 16:37:05.001") (by decide)]

/-- Three minutes make two moves, and one of the two is written. -/
theorem records_complete_threeMinutes :
    (minuteBlocks fiveTicks).length = 3 ∧
    (main Jdk.sample (fiveTicks.map Tick.line)).exception = none ∧
    (main Jdk.sample (fiveTicks.map Tick.line)).written.length = 1 := by
  have hblocks : (minuteBlocks fiveTicks).length = 3 := by decide +kernel
  obtain ⟨hex, ⟨cs, hall, hwritten⟩, -⟩ := records_complete_iff fiveTicks (by
    intro t ht
    simp only [fiveTicks, List.mem_cons, List.not_mem_nil, or_false] at ht
    rcases ht with rfl | rfl | rfl | rfl | rfl
    all_goals exact sampleTick_betweenSentinels _ _)
  refine ⟨hblocks, hex, ?_⟩
  rw [hwritten, dueLines_length, List.length_dropLast, ← hall.length_eq, hblocks]

end DataPrep

end Forex
