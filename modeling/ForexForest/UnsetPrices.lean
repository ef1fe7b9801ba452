import ForexForest.PreparedRecords

/-!
# When the data preparation reads its input to the end

A block is closed by building its candle, which parses the records that the loop
holds as the high and the low price.  They are set when a price beats the
sentinel of the running extremum, and the sentinel of the maximum is
`Double.MIN_VALUE`, the smallest *positive* double: a block whose prices are all
zero or negative leaves the record unset.

`run_cases` follows the loop up to its end or to the first such block that is
closed, and `reads_to_end_iff` says exactly which inputs are read to the end.
-/

namespace Forex

open Java

namespace DataPrep

variable {jdk : Jdk}

/-- One round of the loop of `main`. -/
def round (jdk : Jdk) (st : Loop) (thisLine : JString) : Except Exception Loop := do
  let curPrice ← fillArray 4 (tokens thisLine)
  let entered ← enterBlock jdk st curPrice
  countTick jdk entered curPrice

/-- The variables of the loop after the given lines. -/
def stateAfter (jdk : Jdk) (lines : List JString) : Except Exception Loop :=
  lines.foldlM (round jdk) Loop.start

/-- The loop reaches the end of the file exactly when all of its rounds succeed. -/
theorem loop_exception_eq_none_iff {st : Loop} {lines : List JString} :
    (loop jdk st lines).exception = none ↔ ∃ st', lines.foldlM (round jdk) st = .ok st' := by
  induction lines generalizing st with
  | nil => exact iff_of_true rfl ⟨st, rfl⟩
  | cons line lines ih =>
      rw [List.foldlM_cons, round]
      cases hfill : fillArray 4 (tokens line) with
      | error e => exact iff_of_false (by simp [loop, hfill]) (by rintro ⟨_, h⟩; cases h)
      | ok curPrice =>
          rw [ok_bind]
          cases henter : enterBlock jdk st curPrice with
          | error e =>
              exact iff_of_false (by simp [loop, hfill, henter]) (by rintro ⟨_, h⟩; cases h)
          | ok entered =>
              rw [ok_bind]
              cases hcount : countTick jdk entered curPrice with
              | error e =>
                  exact iff_of_false (by simp [loop, hfill, henter, hcount])
                    (by rintro ⟨_, h⟩; cases h)
              | ok counted =>
                  simp only [loop, hfill, henter, hcount, ok_bind]
                  exact ih

/-- Some price of the block is above `Double.MIN_VALUE`, and some price is below
`Double.MAX_VALUE`. -/
structure BeatsSentinels (block : Block jdk) : Prop where
  high : ∃ t ∈ block, Double.MIN_VALUE.toReal < t.value
  low : ∃ t ∈ block, t.value < Double.MAX_VALUE.toReal

/-- Both prices of a block are set exactly when some price beats each sentinel. -/
theorem beatsSentinels_iff {block : Block jdk} :
    BeatsSentinels block ↔ topTick block ≠ none ∧ bottomTick block ≠ none := by
  rw [Ne, topTick_eq_none, Ne, bottomTick_eq_none]
  push Not
  exact ⟨fun h => ⟨h.high, h.low⟩, fun h => ⟨h.1, h.2⟩⟩

/-- A tick closes a block when its minute is not that of the tick before it. -/
def Closes (before : List (Tick jdk)) (t : Tick jdk) : Prop :=
  ∃ u, before.getLast? = some u ∧ u.slot ≠ t.slot

/-- The program reads the ticks to the end, and whenever a block is closed the
records of the high and the low price are those of ticks of this block. -/
structure ReadsToEnd (ticks : List (Tick jdk)) : Prop where
  no_exception : (main jdk (ticks.map Tick.line)).exception = none
  records_set : ∀ before t after, ticks = before ++ t :: after → Closes before t →
    ∃ st block, stateAfter jdk (before.map Tick.line) = .ok st ∧
      (minuteBlocks before).getLast? = some block ∧
      (∃ u ∈ block, st.highPrice = u.record) ∧ ∃ u ∈ block, st.lowPrice = u.record

section Runs

/-- There is always an open block. -/
theorem openBlocks_ne_nil (slot : JString) (cur : Block jdk) (rest : List (Tick jdk)) :
    openBlocks slot cur rest ≠ [] := by
  induction rest generalizing slot cur with
  | nil => simp [openBlocks]
  | cons t rest ih =>
      rw [openBlocks]
      split_ifs
      · exact ih _ _
      · exact List.cons_ne_nil _ _

/-- A round on a tick line reads the tick and then takes the two steps of the loop.
-/
theorem round_line (st : Loop) (t : Tick jdk) :
    round jdk st t.line =
      enterBlock jdk st t.record >>= fun entered => countTick jdk entered t.record := by
  rw [round, Tick.fillArray_line, ok_bind]

/-- A tick of the open minute is counted. -/
theorem round_same {slot : JString} {closed : List (Block jdk)} {cur : Block jdk} {st : Loop}
    {t : Tick jdk} (h : Tracks (some slot) closed cur st) (ht : t.slot = slot) :
    ∃ st', round jdk st t.line = .ok st' ∧ Tracks (some slot) closed (cur ++ [t]) st' := by
  have henter := enterBlock_same h ht
  subst ht
  rw [round_line, henter, ok_bind]
  exact countTick_tracks h

/-- A tick of another minute closes the open block first, which succeeds exactly
when the block beats the sentinels. -/
theorem round_other {slot : JString} {closed : List (Block jdk)} {cur : Block jdk} {st : Loop}
    {t : Tick jdk} (h : Tracks (some slot) closed cur st) (hne : cur ≠ []) (ht : ¬ t.slot = slot) :
    (BeatsSentinels cur ∧ ∃ st', round jdk st t.line = .ok st' ∧
      Tracks (some t.slot) (closed ++ [cur]) [t] st') ∨
    (¬ BeatsSentinels cur ∧ ∃ e, round jdk st t.line = .error e) := by
  rw [round_line, enterBlock_other h ht]
  by_cases hbeats : BeatsSentinels cur
  · obtain ⟨htop, hbottom⟩ := beatsSentinels_iff.mp hbeats
    obtain ⟨st', hclose, h'⟩ := closeBlock_tracks t.slot h hne htop hbottom
    obtain ⟨st'', hcount, h''⟩ := countTick_tracks h'
    rw [hclose, ok_bind]
    exact Or.inl ⟨hbeats, st'', hcount, h''⟩
  · have hunset : topTick cur = none ∨ bottomTick cur = none := by
      rw [beatsSentinels_iff, not_and_or, not_not, not_not] at hbeats
      exact hbeats
    obtain ⟨e, he⟩ := closeBlock_unset t.slot h hunset
    rw [he]
    exact Or.inr ⟨hbeats, e, rfl⟩

/-- The loop from a tracked state: it counts all ticks, and then every closed
block beats the sentinels, or it fails, and then some block to be closed does
not. -/
theorem advance_cases {slot : JString} {closed : List (Block jdk)} {cur : Block jdk} {st : Loop}
    (h : Tracks (some slot) closed cur st) (hne : cur ≠ [])
    (hclosed : ∀ block ∈ closed, BeatsSentinels block) (rest : List (Tick jdk)) :
    (∃ st' slot' closed' cur', (rest.map Tick.line).foldlM (round jdk) st = .ok st' ∧
      Tracks (some slot') closed' cur' st' ∧
      closed ++ openBlocks slot cur rest = closed' ++ [cur'] ∧
      ∀ block ∈ closed', BeatsSentinels block) ∨
    ((∃ e, (rest.map Tick.line).foldlM (round jdk) st = .error e) ∧
      ∃ block ∈ (closed ++ openBlocks slot cur rest).dropLast, ¬ BeatsSentinels block) := by
  induction rest generalizing slot closed cur st with
  | nil => exact Or.inl ⟨st, slot, closed, cur, rfl, h, rfl, hclosed⟩
  | cons t rest ih =>
      rw [List.map_cons, List.foldlM_cons, openBlocks]
      by_cases ht : t.slot = slot
      · obtain ⟨st', hround, h'⟩ := round_same h ht
        rw [if_pos ht, hround, ok_bind]
        exact ih h' (by simp) hclosed
      · rw [if_neg ht]
        rcases round_other h hne ht with ⟨hbeats, st', hround, h'⟩ | ⟨hbeats, e, hround⟩
        · have hclosed' : ∀ block ∈ closed ++ [cur], BeatsSentinels block := by
            intro block hblock
            rcases List.mem_append.mp hblock with hblock | hblock
            · exact hclosed block hblock
            · rwa [List.mem_singleton.mp hblock]
          have hrun := ih h' (List.cons_ne_nil t []) hclosed'
          rw [List.append_assoc, List.singleton_append] at hrun
          rw [hround, ok_bind]
          exact hrun
        · refine Or.inr ⟨⟨e, by rw [hround]; rfl⟩, cur, ?_, hbeats⟩
          rw [List.dropLast_append_of_ne_nil (List.cons_ne_nil _ _),
            List.dropLast_cons_of_ne_nil (openBlocks_ne_nil _ _ _)]
          exact List.mem_append_right _ List.mem_cons_self

/-- A whole run. -/
theorem run_cases (ticks : List (Tick jdk)) (hne : ticks ≠ []) :
    (∃ st slot closed cur, stateAfter jdk (ticks.map Tick.line) = .ok st ∧
      Tracks (some slot) closed cur st ∧ minuteBlocks ticks = closed ++ [cur] ∧
      ∀ block ∈ closed, BeatsSentinels block) ∨
    ((∃ e, stateAfter jdk (ticks.map Tick.line) = .error e) ∧
      ∃ block ∈ (minuteBlocks ticks).dropLast, ¬ BeatsSentinels block) := by
  obtain ⟨t, rest, rfl⟩ := List.exists_cons_of_ne_nil hne
  obtain ⟨entered, counted, henter, hcount, h⟩ := first_round t
  have hround : round jdk Loop.start t.line = .ok counted := by
    rw [round_line, henter, ok_bind, hcount]
  have hrun := advance_cases h (List.cons_ne_nil t []) (by simp) rest
  rw [List.nil_append, ← minuteBlocks_cons] at hrun
  rw [stateAfter, List.map_cons, List.foldlM_cons, hround, ok_bind]
  exact hrun

/-- The blocks in front of a tick that closes one are those of all ticks. -/
theorem minuteBlocks_of_closes {before : List (Tick jdk)} {t : Tick jdk} (h : Closes before t)
    (after : List (Tick jdk)) :
    minuteBlocks (before ++ t :: after) = minuteBlocks before ++ minuteBlocks (t :: after) := by
  obtain ⟨u, hlast, hslot⟩ := h
  apply List.splitBy_append_cons
  intro x hx
  obtain rfl : u = x := Option.some.inj (hlast.symm.trans hx)
  simpa using hslot

/-- When all blocks in front of the closing tick beat the sentinels, the records
are set by ticks of the last of them. -/
theorem records_set_of_closes {before : List (Tick jdk)} {t : Tick jdk} (h : Closes before t)
    (hbeats : ∀ block ∈ minuteBlocks before, BeatsSentinels block) :
    ∃ st block, stateAfter jdk (before.map Tick.line) = .ok st ∧
      (minuteBlocks before).getLast? = some block ∧
      (∃ u ∈ block, st.highPrice = u.record) ∧ ∃ u ∈ block, st.lowPrice = u.record := by
  have hne : before ≠ [] := by
    obtain ⟨u, hlast, -⟩ := h
    exact List.ne_nil_of_mem (List.mem_of_getLast? hlast)
  rcases run_cases before hne with
    ⟨st, slot, closed, cur, hst, htracks, hblocks, -⟩ | ⟨-, block, hblock, hnot⟩
  · have hcur : BeatsSentinels cur := hbeats cur (by rw [hblocks]; simp)
    obtain ⟨htop, hbottom⟩ := beatsSentinels_iff.mp hcur
    obtain ⟨top, htop⟩ := Option.ne_none_iff_exists'.mp htop
    obtain ⟨bottom, hbottom⟩ := Option.ne_none_iff_exists'.mp hbottom
    refine ⟨st, cur, hst, by rw [hblocks, List.getLast?_concat],
      ⟨top, (topTick_eq_some htop).mem, ?_⟩, ⟨bottom, (bottomTick_eq_some hbottom).mem, ?_⟩⟩
    · rw [htracks.highPrice, htop]
      rfl
    · rw [htracks.lowPrice, hbottom]
      rfl
  · exact absurd (hbeats block (List.mem_of_mem_dropLast hblock)) hnot

end Runs

/-- **When the input is read to the end.**  Exactly when every block that another
block follows has a price above `Double.MIN_VALUE` and a price below
`Double.MAX_VALUE`. -/
theorem reads_to_end_iff (ticks : List (Tick jdk)) :
    ReadsToEnd ticks ↔ ∀ block ∈ (minuteBlocks ticks).dropLast, BeatsSentinels block := by
  have hexception : ∀ l : List (Tick jdk), (main jdk (l.map Tick.line)).exception = none ↔
      ∃ st, stateAfter jdk (l.map Tick.line) = .ok st := fun _ => loop_exception_eq_none_iff
  constructor
  · intro h
    obtain ⟨st, hst⟩ := (hexception ticks).mp h.no_exception
    rcases eq_or_ne ticks [] with rfl | hne
    · simp [minuteBlocks]
    rcases run_cases ticks hne with ⟨_, _, closed, cur, -, -, hblocks, hclosed⟩ | ⟨⟨e, he⟩, -⟩
    · rw [hblocks, List.dropLast_concat]
      exact hclosed
    · rw [he] at hst
      cases hst
  · intro h
    refine ⟨(hexception ticks).mpr ?_, ?_⟩
    · rcases eq_or_ne ticks [] with rfl | hne
      · exact ⟨Loop.start, rfl⟩
      rcases run_cases ticks hne with ⟨st, _, _, _, hst, -⟩ | ⟨-, block, hblock, hbeats⟩
      · exact ⟨st, hst⟩
      · exact absurd (h block hblock) hbeats
    · rintro before t after rfl hcloses
      apply records_set_of_closes hcloses
      intro block hblock
      apply h
      have hlast : minuteBlocks (t :: after) ≠ [] := by simp [minuteBlocks]
      rw [minuteBlocks_of_closes hcloses, List.dropLast_append_of_ne_nil hlast]
      exact List.mem_append_left _ hblock

theorem firstMinute_time :
    IsField (lit "20150803 16:35:01.123") ∧ 14 ≤ (lit "20150803 16:35:01.123").length := by decide

theorem secondMinute_time :
    IsField (lit "20150803 16:36:02.456") ∧ 14 ≤ (lit "20150803 16:36:02.456").length := by decide

/-- A tick of the sample platform at a price of minus one. -/
def minusOneTick (time : JString) (htime : IsField time ∧ 14 ≤ time.length) : Tick Jdk.sample :=
  { sampleTick time htime with
    bid := lit "-1.0"
    ask := none
    price := Double.minusOne
    bid_field := by decide
    ask_field := by
      intro ask hask
      cases hask
    parses := by decide +kernel
    finite := rfl }

/-- A minute of one negative price, and a tick of the next minute. -/
def negativeMinute : List (Tick Jdk.sample) :=
  [minusOneTick (lit "20150803 16:35:01.123") firstMinute_time,
   minusOneTick (lit "20150803 16:36:02.456") secondMinute_time]

/-- The negative price leaves the high record unset, and closing the minute
fails. -/
theorem negative_minute_crashes :
    (main Jdk.sample (negativeMinute.map Tick.line)).exception = some .nullPointer ∧
      ¬ ReadsToEnd negativeMinute := by
  have hcrash : (main Jdk.sample (negativeMinute.map Tick.line)).exception = some .nullPointer := by
    decide +kernel
  refine ⟨hcrash, fun h => ?_⟩
  have hend := h.no_exception
  rw [hcrash] at hend
  cases hend

end DataPrep

end Forex
