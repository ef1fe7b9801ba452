import ForexForest.CsvRoundTrip
import ForexForest.DataPrep
import ForexForest.FirstMax
import ForexForest.JavaLists

/-!
# What the data preparation is for

The abstract side of `DataPrep`: ticks are grouped into minute blocks, the
maximal runs of consecutive ticks of one minute, and every block is summarised
by one candle.  A line is due for every block that has a successor, with the
label taken from the close of the successor.

`Tracks` relates the variables of the loop to the blocks that are closed and to
the block that is open.  One round of the loop keeps it (`loop_tracks`), so the
lines written by any run are a prefix of the lines that are due.
-/

namespace Forex

open Java Scan

namespace DataPrep

/-- A well-formed tick line: three or four non-empty comma-free fields, a time
of at least 14 characters and a finite price. -/
structure Tick (jdk : Jdk) where
  currencyPair : JString
  time : JString
  bid : JString
  ask : Option JString
  price : Double
  pair_field : IsField currencyPair
  time_field : IsField time
  bid_field : IsField bid
  ask_field : ∀ s ∈ ask, IsField s
  time_length : 14 ≤ time.length
  parses : jdk.parseDouble bid = some price
  finite : price.isFinite

namespace Tick

variable {jdk : Jdk} (t : Tick jdk)

/-- The fields in the order of the line. -/
def fields : List JString := t.currencyPair :: t.time :: t.bid :: t.ask.toList

/-- The line of the input file. -/
def line : JString := joinFields t.fields

/-- The minute of the tick. -/
def slot : JString := t.time.take 14

/-- The array that the loop fills from the line. -/
def record : StringArray 4 := Vector.ofFn fun i => t.fields[i.val]?

/-- The bid price as a real number. -/
noncomputable def value : ℝ := t.price.toReal

/-- The tokenizer fills the array of four cells with the fields of the line; a
missing ask price leaves the last one `null`. -/
theorem fillArray_line : fillArray 4 (tokens t.line) = .ok t.record := by
  have hfields : ∀ s ∈ t.fields, IsField s := by
    simp only [fields, List.forall_mem_cons]
    exact ⟨t.pair_field, t.time_field, t.bid_field, fun s hs => t.ask_field s (by simpa using hs)⟩
  have htokens : tokens t.line = t.fields := tokens_joinFields (List.cons_ne_nil _ _) hfields
  rw [htokens, fillArray_of_le]
  · rfl
  · have : t.ask.toList.length ≤ 1 := by cases t.ask <;> simp
    simp only [fields, List.length_cons]
    omega

/-- The first cell holds the currency pair. -/
theorem record_pair : CandleStick.pairCell t.record = some t.currencyPair := by
  simp [record, fields]

/-- The minute is cut from the second cell, which is long enough. -/
theorem slotOf_record : slotOf t.record = .ok t.slot := by
  have hlen : ¬ t.time.length < 14 := not_lt.mpr t.time_length
  simp [slotOf, record, fields, hlen, slot]

/-- The bid price is parsed from the third cell. -/
theorem parse_record : parseDoubleCell jdk (CandleStick.bidCell t.record) = .ok t.price := by
  simp [parseDoubleCell, record, fields, t.parses]

end Tick

/-- The ticks of one minute. -/
abbrev Block (jdk : Jdk) := List (Tick jdk)

/-- The maximal runs of consecutive ticks with the same first 14 characters of
the time. -/
def minuteBlocks {jdk : Jdk} (ticks : List (Tick jdk)) : List (Block jdk) :=
  ticks.splitBy fun a b => a.slot = b.slot

/-- `c` is the candle of the block: its minute, the pair and the price of the
first tick of maximal price, the minimal price, and the last price. -/
structure Summary {jdk : Jdk} (block : Block jdk) (c : CandleStick) : Prop where
  time : ∀ t ∈ block, t.slot = c.time
  high : ∃ t, IsFirstMax Tick.value block t ∧ c.currencyPair = t.currencyPair ∧ c.high = t.price
  low : ∃ t, IsFirstMax (fun t => -t.value) block t ∧ c.low = t.price
  close : ∃ t, block.getLast? = some t ∧ c.close = t.price
  label : c.label = 0

/-- The label of a block with close `c` whose successor closes at `next`. -/
noncomputable def moveLabel (c next : Double) : Int32 :=
  if c.toReal < next.toReal then 1 else if next.toReal < c.toReal then -1 else 0

/-- The line that is due for a block, given the candle of its successor. -/
noncomputable def dueLine (jdk : Jdk) (c next : CandleStick) : JString :=
  joinFields [c.currencyPair, c.time, jdk.doubleToString c.high, jdk.doubleToString c.low,
    jdk.doubleToString c.close, jdk.intToString (moveLabel c.close next.close)] ++ lit "\n"

/-- The lines that are due for a list of block candles: one for each block that
has a successor. -/
noncomputable def dueLines (jdk : Jdk) (cs : List CandleStick) : List JString :=
  List.zipWith (dueLine jdk) cs cs.tail

/-- The blocks of the ticks still to be read, when the block of the minute
`slot` is open and holds the ticks `cur`. -/
def openBlocks {jdk : Jdk} (slot : JString) (cur : Block jdk) :
    List (Tick jdk) → List (Block jdk)
  | [] => [cur]
  | t :: rest =>
      if t.slot = slot then openBlocks slot (cur ++ [t]) rest
      else cur :: openBlocks t.slot [t] rest

variable {jdk : Jdk}

/-- Ticks of one minute make one block. -/
theorem minuteBlocks_of_sameSlot {slot : JString} {cur : Block jdk}
    (hne : cur ≠ []) (hslot : ∀ t ∈ cur, t.slot = slot) : minuteBlocks cur = [cur] := by
  apply List.splitBy_of_isChain hne
  apply List.Pairwise.isChain
  rw [List.pairwise_iff_forall_sublist]
  intro a b hab
  have ha := hslot a (hab.subset (by simp))
  have hb := hslot b (hab.subset (by simp))
  simp [ha, hb]

/-- Reading on with an open block finds the maximal runs. -/
theorem minuteBlocks_append {slot : JString} {cur : Block jdk} {rest : List (Tick jdk)}
    (hne : cur ≠ []) (hslot : ∀ t ∈ cur, t.slot = slot) :
    minuteBlocks (cur ++ rest) = openBlocks slot cur rest := by
  induction rest generalizing slot cur with
  | nil => rw [openBlocks, List.append_nil, minuteBlocks_of_sameSlot hne hslot]
  | cons t rest ih =>
      rw [openBlocks]
      by_cases ht : t.slot = slot
      · rw [if_pos ht, ← ih (by simp)]
        · rw [List.append_assoc, List.singleton_append]
        · intro u hu
          rcases List.mem_append.mp hu with hu | hu
          · exact hslot u hu
          · rw [List.mem_singleton.mp hu, ht]
      · have hcut : minuteBlocks (cur ++ t :: rest) =
            minuteBlocks cur ++ minuteBlocks (t :: rest) := by
          apply List.splitBy_append_cons
          intro x hx
          have hlast := hslot x (List.mem_of_getLast? hx)
          simpa [hlast] using fun h => ht h.symm
        have hrest : minuteBlocks (t :: rest) = openBlocks t.slot [t] rest :=
          ih (List.cons_ne_nil t []) (by simp)
        rw [if_neg ht, hcut, hrest, minuteBlocks_of_sameSlot hne hslot,
          List.singleton_append]

/-- The blocks of a file are those that the loop closes, beginning with the block
that its first tick opens. -/
theorem minuteBlocks_cons (t : Tick jdk) (rest : List (Tick jdk)) :
    minuteBlocks (t :: rest) = openBlocks t.slot [t] rest :=
  minuteBlocks_append (List.cons_ne_nil t []) (by simp)

/-- The first tick of the block to beat `Double.MIN_VALUE` with the maximal
price: the record the loop holds as `highPrice`. -/
noncomputable def topTick (cur : Block jdk) : Option (Tick jdk) :=
  winner Tick.value (fun t => Double.MIN_VALUE.toReal < t.value) cur

/-- The first tick of the block below `Double.MAX_VALUE` with the minimal
price: the record the loop holds as `lowPrice`. -/
noncomputable def bottomTick (cur : Block jdk) : Option (Tick jdk) :=
  winner (fun t => -t.value) (fun t => t.value < Double.MAX_VALUE.toReal) cur

/-- The record of a tick, or the array that no tick has filled. -/
def held (t : Option (Tick jdk)) : StringArray 4 := t.elim (emptyArray 4) Tick.record

/-- The variables of the loop after the blocks `closed`, with the ticks `cur`
of the minute `slot` counted. -/
structure Tracks (slot : Option JString) (closed : List (Block jdk)) (cur : Block jdk)
    (st : Loop) : Prop where
  timeSlot : st.timeSlot = slot
  sameSlot : ∀ t ∈ cur, some t.slot = slot
  closePrice : st.closePrice = held cur.getLast?
  highPrice : st.highPrice = held (topTick cur)
  lowPrice : st.lowPrice = held (bottomTick cur)
  localMax : st.localMax = (topTick cur).elim Double.MIN_VALUE Tick.price
  localMin : st.localMin = (bottomTick cur).elim Double.MAX_VALUE Tick.price
  history : ∃ cs, List.Forall₂ Summary closed cs ∧ st.prev = cs.getLast? ∧
    st.written = dueLines jdk cs

/-- Before the first tick nothing is held and nothing is due. -/
theorem tracks_start : Tracks none ([] : List (Block jdk)) [] Loop.start where
  timeSlot := rfl
  sameSlot := by simp
  closePrice := rfl
  highPrice := rfl
  lowPrice := rfl
  localMax := rfl
  localMin := rfl
  history := ⟨[], List.Forall₂.nil, rfl, rfl⟩

/-- A price above a price that beats `Double.MIN_VALUE` beats it too: the bar of the
scan for the maximum. -/
private theorem top_bar (x y : Tick jdk) (hx : Double.MIN_VALUE.toReal < x.value)
    (hxy : x.value ≤ y.value) : Double.MIN_VALUE.toReal < y.value :=
  hx.trans_le hxy

/-- A price below a price that beats `Double.MAX_VALUE` beats it too: the bar of the
scan for the minimum. -/
private theorem bottom_bar (x y : Tick jdk) (hx : x.value < Double.MAX_VALUE.toReal)
    (hxy : -x.value ≤ -y.value) : y.value < Double.MAX_VALUE.toReal :=
  (neg_le_neg_iff.mp hxy).trans_lt hx

/-- The tick held as the highest is the first one of maximal price. -/
theorem topTick_eq_some {cur : Block jdk} {t : Tick jdk} (h : topTick cur = some t) :
    IsFirstMax Tick.value cur t :=
  ((winner_eq_some_iff top_bar).mp h).2

/-- The tick held as the lowest is the first one of minimal price. -/
theorem bottomTick_eq_some {cur : Block jdk} {t : Tick jdk} (h : bottomTick cur = some t) :
    IsFirstMax (fun t => -t.value) cur t :=
  ((winner_eq_some_iff bottom_bar).mp h).2

/-- No tick is held as the highest exactly when no price beats `Double.MIN_VALUE`,
the smallest positive double. -/
theorem topTick_eq_none {cur : Block jdk} :
    topTick cur = none ↔ ∀ t ∈ cur, ¬ Double.MIN_VALUE.toReal < t.value :=
  winner_eq_none_iff top_bar

/-- No tick is held as the lowest exactly when no price is below `Double.MAX_VALUE`.
-/
theorem bottomTick_eq_none {cur : Block jdk} :
    bottomTick cur = none ↔ ∀ t ∈ cur, ¬ t.value < Double.MAX_VALUE.toReal :=
  winner_eq_none_iff bottom_bar

/-- A finite double is below the price of a tick as their real numbers are. -/
theorem lt_value_iff {d : Double} (hd : d.isFinite) (t : Tick jdk) :
    d.lt t.price ↔ d.toReal < t.value :=
  Double.lt_iff_toReal hd t.finite

/-- The price of a tick is below a finite double as their real numbers are. -/
theorem value_lt_iff {d : Double} (hd : d.isFinite) (t : Tick jdk) :
    t.price.lt d ↔ t.value < d.toReal :=
  Double.lt_iff_toReal t.finite hd

/-- The test on `localMax` decides which tick holds the maximum. -/
theorem topTick_snoc (cur : Block jdk) (t : Tick jdk) :
    topTick (cur ++ [t]) =
      if ((topTick cur).elim Double.MIN_VALUE Tick.price).lt t.price then some t
      else topTick cur := by
  rw [topTick, winner_snoc, ← topTick]
  cases topTick cur with
  | none =>
      simp only [challenge, Option.elim, lt_value_iff (show Double.MIN_VALUE.isFinite from rfl)]
  | some x =>
      have hlt := lt_value_iff x.finite t
      by_cases hx : x.value < t.value
      · exact (if_pos hx).trans (if_pos (hlt.mpr hx)).symm
      · exact (if_neg hx).trans (if_neg (mt hlt.mp hx)).symm

/-- The test on `localMin` decides which tick holds the minimum. -/
theorem bottomTick_snoc (cur : Block jdk) (t : Tick jdk) :
    bottomTick (cur ++ [t]) =
      if t.price.lt ((bottomTick cur).elim Double.MAX_VALUE Tick.price) then some t
      else bottomTick cur := by
  rw [bottomTick, winner_snoc, ← bottomTick]
  cases bottomTick cur with
  | none =>
      simp only [challenge, Option.elim, value_lt_iff (show Double.MAX_VALUE.isFinite from rfl)]
  | some x =>
      have hlt := value_lt_iff x.finite t
      by_cases hx : t.value < x.value
      · exact (if_pos (neg_lt_neg hx)).trans (if_pos (hlt.mpr hx)).symm
      · exact (if_neg (mt neg_lt_neg_iff.mp hx)).trans (if_neg (mt hlt.mp hx)).symm

/-- Counting a tick of the open minute succeeds and keeps the tracking. -/
theorem countTick_tracks {t : Tick jdk} {closed : List (Block jdk)} {cur : Block jdk}
    {st : Loop} (h : Tracks (some t.slot) closed cur st) :
    ∃ st', countTick jdk st t.record = .ok st' ∧
      Tracks (some t.slot) closed (cur ++ [t]) st' := by
  have htop := topTick_snoc cur t
  have hbottom := bottomTick_snoc cur t
  rw [← h.localMax] at htop
  rw [← h.localMin] at hbottom
  have hsame : ∀ u ∈ cur ++ [t], some u.slot = some t.slot := by
    intro u hu
    rcases List.mem_append.mp hu with hu | hu
    · exact h.sameSlot u hu
    · rw [List.mem_singleton.mp hu]
  rw [countTick, Tick.parse_record, ok_bind]
  refine ⟨_, rfl, ?_⟩
  by_cases hmax : st.localMax.lt t.price <;> by_cases hmin : t.price.lt st.localMin
  all_goals
    simp only [hmax, hmin, if_true, if_false, Bool.false_eq_true] at htop hbottom ⊢
    exact {
      timeSlot := h.timeSlot
      sameSlot := hsame
      closePrice := by simp [held]
      highPrice := by simp [htop, held, h.highPrice]
      lowPrice := by simp [hbottom, held, h.lowPrice]
      localMax := by simp [htop, h.localMax]
      localMin := by simp [hbottom, h.localMin]
      history := h.history }

/-- A block whose extrema beat the sentinels has a candle, and the constructor
builds it. -/
theorem ofRecords_summary {slot : JString} {cur : Block jdk} {top bottom last : Tick jdk}
    (hslot : ∀ t ∈ cur, t.slot = slot) (htop : topTick cur = some top)
    (hbottom : bottomTick cur = some bottom) (hlast : cur.getLast? = some last) :
    ∃ c, CandleStick.ofRecords jdk slot (held (topTick cur)) (held (bottomTick cur))
      (held cur.getLast?) = .ok c ∧ Summary cur c := by
  rw [htop, hbottom, hlast]
  simp only [held, Option.elim, CandleStick.ofRecords, Tick.parse_record, Tick.record_pair,
    ok_bind, Option.getD_some]
  exact ⟨_, rfl, hslot, ⟨top, topTick_eq_some htop, rfl, rfl⟩,
    ⟨bottom, bottomTick_eq_some hbottom, rfl⟩, ⟨last, hlast, rfl⟩, rfl⟩

/-- A block that leaves a sentinel unbeaten makes the constructor parse an unset
record. -/
theorem ofRecords_unset (slot : JString) {cur : Block jdk}
    (h : topTick cur = none ∨ bottomTick cur = none) :
    ∃ e, CandleStick.ofRecords jdk slot (held (topTick cur)) (held (bottomTick cur))
      (held cur.getLast?) = .error e := by
  have hunset : parseDoubleCell jdk (CandleStick.bidCell (held (none : Option (Tick jdk)))) =
      .error .nullPointer := by
    rw [held, Option.elim, CandleStick.bidCell, emptyArray_get]
    rfl
  cases htop : topTick cur with
  | none => exact ⟨_, by rw [CandleStick.ofRecords, hunset]; rfl⟩
  | some top =>
      have hbottom : bottomTick cur = none := h.resolve_left (by simp [htop])
      refine ⟨.nullPointer, ?_⟩
      rw [hbottom, CandleStick.ofRecords, hunset, held, Option.elim, Tick.parse_record]
      rfl

/-- A block candle and the code's label for it give the line that is due. -/
theorem getFeaturesAndLabel_eq_dueLine {block block' : Block jdk} {c next : CandleStick}
    (hc : Summary block c) (hnext : Summary block' next) :
    c.getFeaturesAndLabel jdk next = dueLine jdk c next := by
  obtain ⟨t, -, hclose⟩ := hc.close
  obtain ⟨t', -, hclose'⟩ := hnext.close
  have hfin : c.close.isFinite := hclose ▸ t.finite
  have hfin' : next.close.isFinite := hclose' ▸ t'.finite
  have hlabel : c.nextLabel next = moveLabel c.close next.close := by
    simp only [CandleStick.nextLabel, moveLabel, Double.lt_iff_toReal hfin hfin',
      Double.lt_iff_toReal hfin' hfin]
  rw [CandleStick.getFeaturesAndLabel_eq, hlabel]
  rfl

theorem dueLines_cons_cons (a b : CandleStick) (cs : List CandleStick) :
    dueLines jdk (a :: b :: cs) = dueLine jdk a b :: dueLines jdk (b :: cs) := rfl

/-- One line is due for every candle but the last. -/
theorem dueLines_length (cs : List CandleStick) :
    (dueLines jdk cs).length = cs.length - 1 := by
  simp [dueLines]

/-- A further candle makes the line of the candle before it due. -/
theorem dueLines_snoc (cs : List CandleStick) (c : CandleStick) :
    dueLines jdk (cs ++ [c]) =
      match cs.getLast? with
      | none => dueLines jdk cs
      | some last => dueLines jdk cs ++ [dueLine jdk last c] := by
  induction cs with
  | nil => rfl
  | cons a cs ih =>
      cases cs with
      | nil => rfl
      | cons b cs =>
          rw [List.cons_append, List.cons_append, dueLines_cons_cons, ← List.cons_append, ih,
            List.getLast?_cons_cons, dueLines_cons_cons]
          cases (b :: cs).getLast? <;> rfl

/-- What is due for the first candles stays due when others follow. -/
theorem dueLines_prefix (cs ds : List CandleStick) :
    dueLines jdk cs <+: dueLines jdk (cs ++ ds) := by
  induction ds using List.reverseRecOn with
  | nil => simp
  | append_singleton ds d ih =>
      apply ih.trans
      rw [← List.append_assoc, dueLines_snoc]
      cases (cs ++ ds).getLast? with
      | none => exact List.prefix_rfl
      | some last => exact List.prefix_append _ _

/-- The first tick of another minute closes the open block: its candle becomes
the previous one and the line that is now due is written. -/
theorem closeBlock_tracks (next : JString) {slot : JString} {closed : List (Block jdk)}
    {cur : Block jdk} {st : Loop} (h : Tracks (some slot) closed cur st) (hne : cur ≠ [])
    (htop : topTick cur ≠ none) (hbottom : bottomTick cur ≠ none) :
    ∃ st', closeBlock jdk st slot next = .ok st' ∧
      Tracks (some next) (closed ++ [cur]) [] st' := by
  obtain ⟨top, htop⟩ := Option.ne_none_iff_exists'.mp htop
  obtain ⟨bottom, hbottom⟩ := Option.ne_none_iff_exists'.mp hbottom
  have hsame : ∀ t ∈ cur, t.slot = slot := fun t ht => Option.some.inj (h.sameSlot t ht)
  obtain ⟨c, hc, hsum⟩ := ofRecords_summary hsame htop hbottom (List.getLast?_eq_some_getLast hne)
  obtain ⟨cs, hcs, hprev, hwritten⟩ := h.history
  rw [closeBlock, h.highPrice, h.lowPrice, h.closePrice, hc, ok_bind]
  refine ⟨_, rfl, rfl, by simp, rfl, rfl, rfl, rfl, rfl, cs ++ [c], ?_, by simp, ?_⟩
  · exact List.rel_append hcs (List.Forall₂.cons hsum List.Forall₂.nil)
  · rw [dueLines_snoc, ← hwritten, hprev]
    cases hlast : cs.getLast? with
    | none => rfl
    | some last =>
        obtain ⟨block, -, hblock⟩ := exists_of_forall₂ hcs (List.mem_of_getLast? hlast)
        exact congrArg (fun l => st.written ++ [l]) (getFeaturesAndLabel_eq_dueLine hblock hsum)

/-- Closing a block that leaves a sentinel unbeaten ends the run. -/
theorem closeBlock_unset (next : JString) {slot : JString} {closed : List (Block jdk)}
    {cur : Block jdk} {st : Loop} (h : Tracks (some slot) closed cur st)
    (hunset : topTick cur = none ∨ bottomTick cur = none) :
    ∃ e, closeBlock jdk st slot next = .error e := by
  obtain ⟨e, he⟩ := ofRecords_unset slot hunset
  rw [closeBlock, h.highPrice, h.lowPrice, h.closePrice, he]
  exact ⟨e, rfl⟩

/-- A tick of the open minute changes nothing before it is counted. -/
theorem enterBlock_same {slot : JString} {closed : List (Block jdk)} {cur : Block jdk}
    {st : Loop} {t : Tick jdk} (h : Tracks (some slot) closed cur st) (ht : t.slot = slot) :
    enterBlock jdk st t.record = .ok st := by
  rw [enterBlock, Tick.slotOf_record, ok_bind, h.timeSlot]
  exact if_pos ht

/-- A tick of another minute closes the open block before it is counted. -/
theorem enterBlock_other {slot : JString} {closed : List (Block jdk)} {cur : Block jdk}
    {st : Loop} {t : Tick jdk} (h : Tracks (some slot) closed cur st) (ht : ¬ t.slot = slot) :
    enterBlock jdk st t.record = closeBlock jdk st slot t.slot := by
  rw [enterBlock, Tick.slotOf_record, ok_bind, h.timeSlot]
  exact if_neg ht

/-- The first tick opens the first block. -/
theorem first_round (t : Tick jdk) : ∃ entered counted,
    enterBlock jdk Loop.start t.record = .ok entered ∧
    countTick jdk entered t.record = .ok counted ∧
    Tracks (some t.slot) ([] : List (Block jdk)) [t] counted := by
  have hstart : Tracks (some t.slot) ([] : List (Block jdk)) []
      { Loop.start with timeSlot := some t.slot } :=
    { tracks_start with timeSlot := rfl, sameSlot := by simp }
  obtain ⟨counted, hcount, h⟩ := countTick_tracks hstart
  refine ⟨_, counted, ?_, hcount, h⟩
  rw [enterBlock, Tick.slotOf_record, ok_bind]
  rfl

/-- What a run from a tracked state ends with: the candles of the first `n` of
the given blocks are the due candles behind the written lines, at least the last
block is not among them, and it is the only one missing unless a block that was
to be closed left a sentinel unbeaten. -/
structure Ends (blocks : List (Block jdk)) (out : Outcome) : Prop where
  closed : ∃ cs, List.Forall₂ Summary (blocks.take cs.length) cs ∧
    out.written = dueLines jdk cs ∧ cs.length < blocks.length ∧
    (out.exception = none → cs.length + 1 = blocks.length)
  unset : out.exception ≠ none → ∃ block ∈ blocks, topTick block = none ∨ bottomTick block = none

/-- The history of a tracked state is about the first of all blocks, those that are
closed. -/
theorem Tracks.take_history {slot : Option JString} {closed : List (Block jdk)}
    {cur : Block jdk} {st : Loop} (h : Tracks slot closed cur st) (rest : List (Block jdk)) :
    ∃ cs, List.Forall₂ Summary ((closed ++ rest).take cs.length) cs ∧
      st.written = dueLines jdk cs ∧ cs.length = closed.length := by
  obtain ⟨cs, hcs, -, hwritten⟩ := h.history
  refine ⟨cs, ?_, hwritten, hcs.length_eq.symm⟩
  rw [← hcs.length_eq, List.take_left]
  exact hcs

/-- A round that succeeds is followed by the rounds of the remaining lines. -/
theorem loop_cons_ok {t : Tick jdk} {st entered counted : Loop} {lines : List JString}
    (henter : enterBlock jdk st t.record = .ok entered)
    (hcount : countTick jdk entered t.record = .ok counted) :
    loop jdk st (t.line :: lines) = loop jdk counted lines := by
  simp only [loop, Tick.fillArray_line, henter, hcount]

/-- A round that throws ends the run with what was written before. -/
theorem loop_cons_error {t : Tick jdk} {st : Loop} {lines : List JString} {e : Exception}
    (henter : enterBlock jdk st t.record = .error e) :
    loop jdk st (t.line :: lines) = ⟨st.written, some e⟩ := by
  simp only [loop, Tick.fillArray_line, henter]

/-- **The loop invariant over a run.**  From a tracked state with an open block,
any further ticks end as `Ends` says for the closed blocks followed by the runs
that the open block and the ticks form. -/
theorem loop_tracks {slot : JString} {closed : List (Block jdk)} {cur : Block jdk} {st : Loop}
    (h : Tracks (some slot) closed cur st) (hne : cur ≠ []) (rest : List (Tick jdk)) :
    Ends (closed ++ openBlocks slot cur rest) (loop jdk st (rest.map Tick.line)) := by
  induction rest generalizing slot closed cur st with
  | nil =>
      obtain ⟨cs, hcs, hwritten, hlen⟩ := h.take_history (openBlocks slot cur [])
      refine ⟨⟨cs, hcs, hwritten, ?_, ?_⟩, fun hex => absurd rfl hex⟩
      · simp [openBlocks, hlen]
      · simp [openBlocks, hlen]
  | cons t rest ih =>
      rw [List.map_cons, openBlocks]
      by_cases ht : t.slot = slot
      · -- the tick belongs to the open minute
        have henter := enterBlock_same h ht
        rw [← ht] at h
        obtain ⟨st', hcount, h'⟩ := countTick_tracks h
        rw [if_pos ht, loop_cons_ok henter hcount, ← ht]
        exact ih h' (by simp)
      · have henter := enterBlock_other h ht
        rw [if_neg ht]
        by_cases hunset : topTick cur = none ∨ bottomTick cur = none
        · -- the candle of the open block cannot be built
          obtain ⟨e, he⟩ := closeBlock_unset t.slot h hunset
          obtain ⟨cs, hcs, hwritten, hlen⟩ := h.take_history (cur :: openBlocks t.slot [t] rest)
          rw [loop_cons_error (henter.trans he)]
          refine ⟨⟨cs, hcs, hwritten, ?_, fun hex => by cases hex⟩, fun _ => ⟨cur, ?_, hunset⟩⟩
          · simp [hlen]
          · simp
        · rw [not_or] at hunset
          obtain ⟨st', hclose, h'⟩ := closeBlock_tracks t.slot h hne hunset.1 hunset.2
          obtain ⟨st'', hcount, h''⟩ := countTick_tracks h'
          rw [loop_cons_ok (henter.trans hclose) hcount]
          have hrun := ih h'' (by simp)
          rwa [List.nil_append, List.append_assoc, List.singleton_append] at hrun

/-- **Every run.**  On any sequence of well-formed tick lines the program ends as
`Ends` says for the minute blocks, when there is one. -/
theorem main_ends (t : Tick jdk) (rest : List (Tick jdk)) :
    Ends (minuteBlocks (t :: rest)) (main jdk ((t :: rest).map Tick.line)) := by
  obtain ⟨entered, counted, henter, hcount, h⟩ := first_round t
  rw [main, List.map_cons, loop_cons_ok henter hcount, minuteBlocks_cons]
  exact loop_tracks h (by simp) rest

end DataPrep

end Forex
