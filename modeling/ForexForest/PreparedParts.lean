import ForexForest.PreparedEvaluation

/-!
# Preparing a file in parts

A file of ticks may be prepared part by part, or its ticks may come in another
order.  What is written depends on the candles of the minute blocks alone, and a
block has one candle (`Summary.unique`).

* `written_append` — a cut between two minutes costs the records at the cut;
* `written_parts` — with at least two minutes in each part, two records a cut;
* `written_reordered` — of the ticks of a minute only the last one has a place.
-/

namespace Forex

open Java Scan

namespace DataPrep

variable {jdk : Jdk}

/-- A block has one candle. -/
theorem Summary.unique {block : Block jdk} {c c' : CandleStick} (h : Summary block c)
    (h' : Summary block c') : c = c' := by
  obtain ⟨t, ht, hpair, hhigh⟩ := h.high
  obtain ⟨t', ht', hpair', hhigh'⟩ := h'.high
  obtain ⟨u, hu, hlow⟩ := h.low
  obtain ⟨u', hu', hlow'⟩ := h'.low
  obtain ⟨v, hv, hclose⟩ := h.close
  obtain ⟨v', hv', hclose'⟩ := h'.close
  obtain rfl := ht.unique ht'
  obtain rfl := hu.unique hu'
  obtain rfl : v = v' := Option.some.inj (hv.symm.trans hv')
  have htime : c.time = c'.time := (h.time t ht.mem).symm.trans (h'.time t ht.mem)
  have hlabel : c.label = c'.label := h.label.trans h'.label.symm
  cases c
  cases c'
  grind

/-- So the blocks of a file determine their candles. -/
theorem summaries_unique {blocks : List (Block jdk)} {cs cs' : List CandleStick}
    (h : List.Forall₂ Summary blocks cs) (h' : List.Forall₂ Summary blocks cs') : cs = cs' :=
  Relator.RightUnique.forall₂ (R := Summary) (fun _ _ _ => Summary.unique) h h'

section Cut

/-- A cut between two minutes cuts no block. -/
theorem minuteBlocks_of_cut {xs ys : List (Tick jdk)}
    (hcut : ∀ x ∈ xs.getLast?, ∀ y ∈ ys.head?, x.slot ≠ y.slot) :
    minuteBlocks (xs ++ ys) = minuteBlocks xs ++ minuteBlocks ys :=
  List.splitBy_append fun x hx y hy => decide_eq_false (hcut x hx y hy)

/-- The ticks of a minute before those of another one. -/
theorem minuteBlocks_minute_append {slot : JString} {block ticks : List (Tick jdk)}
    (hne : block ≠ []) (hslot : ∀ t ∈ block, t.slot = slot)
    (hnext : ∀ y ∈ ticks.head?, slot ≠ y.slot) :
    minuteBlocks (block ++ ticks) = block :: minuteBlocks ticks := by
  rw [minuteBlocks_of_cut, minuteBlocks_of_sameSlot hne hslot, List.singleton_append]
  intro x hx y hy
  rw [hslot x (List.mem_of_getLast? hx)]
  exact hnext y hy

/-- The lines due for a list are those due for its front and for the rest with the
last candle of the front before it. -/
theorem dueLines_append (cs ds : List CandleStick) (c : CandleStick) :
    dueLines jdk (cs ++ c :: ds) = dueLines jdk (cs ++ [c]) ++ dueLines jdk (c :: ds) := by
  induction cs with
  | nil => rfl
  | cons a cs ih =>
      cases cs with
      | nil => rfl
      | cons b cs =>
          simp only [List.cons_append, dueLines_cons_cons] at ih ⊢
          rw [ih]

/-- The last two lines rest on the last two candles. -/
theorem dueLines_concat (cs : List CandleStick) (d : CandleStick) :
    dueLines jdk (cs ++ [d]) =
      dueLines jdk cs.dropLast ++ dueLines jdk (cs.drop (cs.length - 2) ++ [d]) := by
  rcases List.eq_nil_or_concat' cs with rfl | ⟨cs, b, rfl⟩
  · rfl
  · rcases List.eq_nil_or_concat' cs with rfl | ⟨cs, a, rfl⟩
    · rfl
    · have hdrop : (cs ++ [a] ++ [b]).drop ((cs ++ [a] ++ [b]).length - 2) = [a, b] := by simp
      rw [hdrop, List.dropLast_concat, List.append_assoc, List.append_assoc]
      exact dueLines_append cs [b, d] a

/-- **One cut.**  The lines of two parts, cut between two minutes, and those of the
whole differ by the lines due for the last two blocks of the first part and the
first block of the second. -/
theorem written_append {xs ys : List (Tick jdk)}
    (hprices : ∀ t ∈ xs ++ ys, t.BetweenSentinels)
    (hcut : ∀ x ∈ xs.getLast?, ∀ y ∈ ys.head?, x.slot ≠ y.slot)
    (hys : 2 ≤ (minuteBlocks ys).length) :
    ∃ cs ds, List.Forall₂ Summary (minuteBlocks xs) cs ∧
      List.Forall₂ Summary (minuteBlocks ys) ds ∧
      (main jdk ((xs ++ ys).map Tick.line)).written =
        (main jdk (xs.map Tick.line)).written ++
          dueLines jdk (cs.drop (cs.length - 2) ++ ds.take 1) ++
          (main jdk (ys.map Tick.line)).written := by
  obtain ⟨hxs, hys'⟩ := List.forall_mem_append.mp hprices
  obtain ⟨cs, hcs, hfront⟩ := written_eq_dueLines hxs
  obtain ⟨ds, hds, hback⟩ := written_eq_dueLines hys'
  obtain ⟨all, hall, hwhole⟩ := written_eq_dueLines hprices
  have hboth : all = cs ++ ds := by
    rw [minuteBlocks_of_cut hcut] at hall
    exact summaries_unique hall (List.rel_append hcs hds)
  refine ⟨cs, ds, hcs, hds, ?_⟩
  have htwo : 2 ≤ ds.length := hds.length_eq ▸ hys
  match ds, htwo with
  | d :: e :: ds, _ =>
      have hinit : (cs ++ d :: e :: ds).dropLast = cs ++ d :: (e :: ds).dropLast := by
        rw [List.dropLast_append_of_ne_nil (List.cons_ne_nil _ _), List.dropLast_cons_cons]
      rw [hwhole, hfront, hback, hboth, hinit, dueLines_append, dueLines_concat]
      rfl

/-- Every part has two minutes or more, and the next one begins a minute. -/
structure CutBetweenMinutes (parts : List (List (Tick jdk))) : Prop where
  minutes : ∀ part ∈ parts, 2 ≤ (minuteBlocks part).length
  cuts : parts.IsChain fun xs ys => ∀ x ∈ xs.getLast?, ∀ y ∈ ys.head?, x.slot ≠ y.slot

namespace CutBetweenMinutes

variable {part next : List (Tick jdk)} {parts : List (List (Tick jdk))}

theorem tail (h : CutBetweenMinutes (part :: parts)) : CutBetweenMinutes parts :=
  ⟨fun other hother => h.minutes other (List.mem_cons_of_mem part hother), h.cuts.tail⟩

/-- The first part is cut from all the others. -/
theorem cut (h : CutBetweenMinutes (part :: next :: parts)) :
    ∀ x ∈ part.getLast?, ∀ y ∈ (next :: parts).flatten.head?, x.slot ≠ y.slot := by
  have hnext := h.minutes next (by simp)
  cases next with
  | nil => simp [minuteBlocks] at hnext
  | cons t next => exact (List.isChain_cons_cons.mp h.cuts).1

/-- The blocks of the parts are those of the whole. -/
theorem minuteBlocks_flatten (h : CutBetweenMinutes parts) :
    minuteBlocks parts.flatten = parts.flatMap minuteBlocks := by
  induction parts with
  | nil => rfl
  | cons part parts ih =>
      have htail := ih h.tail
      cases parts with
      | nil => simp
      | cons next parts =>
          rw [List.flatten_cons, minuteBlocks_of_cut h.cut, htail]
          rfl

/-- There are two blocks in the whole. -/
theorem two_le_flatten (h : CutBetweenMinutes (part :: parts)) :
    2 ≤ (minuteBlocks (part :: parts).flatten).length := by
  have hpart := h.minutes part List.mem_cons_self
  rw [h.minuteBlocks_flatten, List.flatMap_cons, List.length_append]
  omega

end CutBetweenMinutes

/-- **Preparing in parts.**  The records of the parts are, in their order, among those
of the whole, and each cut costs two of them. -/
theorem written_parts {parts : List (List (Tick jdk))} (h : CutBetweenMinutes parts)
    (hprices : ∀ part ∈ parts, ∀ t ∈ part, t.BetweenSentinels) :
    (parts.flatMap fun part => (main jdk (part.map Tick.line)).written).Sublist
        (main jdk (parts.flatten.map Tick.line)).written ∧
      (main jdk (parts.flatten.map Tick.line)).written.length =
        (parts.flatMap fun part => (main jdk (part.map Tick.line)).written).length +
          2 * (parts.length - 1) := by
  induction parts with
  | nil => exact ⟨List.Sublist.refl _, rfl⟩
  | cons part parts ih =>
      obtain ⟨hpart, hrest⟩ := List.forall_mem_cons.mp hprices
      cases parts with
      | nil => simp
      | cons next parts =>
          obtain ⟨hsub, hlength⟩ := ih h.tail hrest
          have hall : ∀ t ∈ part ++ (next :: parts).flatten, t.BetweenSentinels := by
            rw [List.forall_mem_append]
            refine ⟨hpart, fun t ht => ?_⟩
            obtain ⟨other, hother, htother⟩ := List.mem_flatten.mp ht
            exact hrest other hother t htother
          obtain ⟨cs, ds, hcs, hds, hwritten⟩ :=
            written_append hall h.cut h.tail.two_le_flatten
          have hlost : (dueLines jdk (cs.drop (cs.length - 2) ++ ds.take 1)).length = 2 := by
            have hmany := h.minutes part List.mem_cons_self
            have hsome := h.tail.two_le_flatten
            rw [hcs.length_eq] at hmany
            rw [hds.length_eq] at hsome
            rw [dueLines_length, List.length_append, List.length_drop, List.length_take]
            omega
          rw [List.flatten_cons, List.flatMap_cons, hwritten]
          constructor
          · exact ((List.sublist_append_left _ _)).append hsub
          · simp only [List.length_append, List.length_cons, hlost, hlength]
            omega

/-- Two parts of two minutes. -/
theorem written_parts_twoMinutes :
    (main Jdk.sample ([twoMinutes, twoMinutes].flatten.map Tick.line)).written.length =
      ([twoMinutes, twoMinutes].flatMap fun part =>
        (main Jdk.sample (part.map Tick.line)).written).length +
          2 * ([twoMinutes, twoMinutes].length - 1) := by
  have htwo : 2 ≤ (minuteBlocks twoMinutes).length := by decide +kernel
  have hcut : ∀ x ∈ twoMinutes.getLast?, ∀ y ∈ twoMinutes.head?, x.slot ≠ y.slot := by
    rintro x ⟨⟩ y ⟨⟩
    decide +kernel
  refine (written_parts ⟨by simp [htwo], by simpa using hcut⟩ ?_).2
  intro part hpart t ht
  obtain rfl : part = twoMinutes := by simpa using hpart
  simp only [twoMinutes, List.mem_cons, List.not_mem_nil, or_false] at ht
  rcases ht with rfl | rfl <;> exact sampleTick_betweenSentinels _ _

end Cut

section Reordering

/-- The blocks hold the same ticks, and the same one comes last. -/
def SameButOrder (block block' : Block jdk) : Prop :=
  block.Perm block' ∧ block.getLast? = block'.getLast?

/-- The first tick of an extremal price of reordered ticks has the same price. -/
theorem price_eq_of_perm {key : Tick jdk → ℝ}
    (hkey : ∀ t u : Tick jdk, key t = key u → t.value = u.value)
    {block block' : Block jdk} (hperm : block.Perm block')
    (hprices : ∀ t ∈ block, t.BetweenSentinels) {t t' : Tick jdk} (ht : IsFirstMax key block t)
    (ht' : IsFirstMax key block' t') : t.price = t'.price := by
  have hsame : key t = key t' :=
    le_antisymm (ht'.le (hperm.mem_iff.mp ht.mem)) (ht.le (hperm.mem_iff.mpr ht'.mem))
  exact Double.ext_of_pos (hprices t ht.mem).value_pos (hkey t t' hsame)

/-- The candle of a block of one pair is that of the reordered block. -/
theorem Summary.reordered {pair : JString} {block block' : Block jdk} {c : CandleStick}
    (h : Summary block c) (hsame : SameButOrder block block')
    (hprices : ∀ t ∈ block, t.BetweenSentinels) (hpair : ∀ t ∈ block, t.currencyPair = pair) :
    Summary block' c := by
  obtain ⟨hperm, hlast⟩ := hsame
  obtain ⟨t, ht, hc, hhigh⟩ := h.high
  obtain ⟨u, hu, hlow⟩ := h.low
  have hne : block' ≠ [] := List.ne_nil_of_mem (hperm.mem_iff.mp ht.mem)
  obtain ⟨t', ht'⟩ := exists_isFirstMax Tick.value hne
  obtain ⟨u', hu'⟩ := exists_isFirstMax (fun t : Tick jdk => -t.value) hne
  constructor
  · exact fun v hv => h.time v (hperm.mem_iff.mpr hv)
  · refine ⟨t', ht', ?_, ?_⟩
    · rw [hc, hpair t ht.mem, hpair t' (hperm.mem_iff.mpr ht'.mem)]
    · rw [hhigh, price_eq_of_perm (fun _ _ => id) hperm hprices ht ht']
  · refine ⟨u', hu', ?_⟩
    rw [hlow, price_eq_of_perm (fun _ _ => neg_inj.mp) hperm hprices hu hu']
  · rw [← hlast]
    exact h.close
  · exact h.label

/-- **The order inside a minute.**  Of the ticks of one currency pair, those of a
minute may come in any order, with the last one in its place. -/
theorem written_reordered {pair : JString} {xs ys : List (Tick jdk)}
    (hprices : ∀ t ∈ xs, t.BetweenSentinels) (hpair : ∀ t ∈ xs, t.currencyPair = pair)
    (h : List.Forall₂ SameButOrder (minuteBlocks xs) (minuteBlocks ys)) :
    (main jdk (xs.map Tick.line)).written = (main jdk (ys.map Tick.line)).written := by
  have hperm : xs.Perm ys := by
    have hblocks := List.Perm.flatten_congr (h.imp fun _ _ hsame => hsame.1)
    rwa [minuteBlocks, minuteBlocks, List.flatten_splitBy, List.flatten_splitBy] at hblocks
  obtain ⟨cs, hcs, hxs⟩ := written_eq_dueLines hprices
  obtain ⟨ds, hds, hys⟩ := written_eq_dueLines fun t ht => hprices t (hperm.mem_iff.mpr ht)
  have hmoved : List.Forall₂ Summary (minuteBlocks ys) cs := by
    refine List.forall₂_iff_get.mpr ⟨h.length_eq.symm.trans hcs.length_eq, fun i hi hi' => ?_⟩
    have hi'' : i < (minuteBlocks xs).length := h.length_eq.symm ▸ hi
    have hmem : ∀ t ∈ (minuteBlocks xs).get ⟨i, hi''⟩, t ∈ xs := fun t ht =>
      mem_of_mem_minuteBlocks (List.get_mem _ _) ht
    exact (hcs.get hi'' hi').reordered (h.get hi'' hi) (fun t ht => hprices t (hmem t ht))
      fun t ht => hpair t (hmem t ht)
  rw [hxs, hys, summaries_unique hmoved hds]

/-- A tick at 16:34. -/
def earlyTick (seconds : JString) (h : IsField (lit "20150803 16:34" ++ seconds)) :
    Tick Jdk.sample :=
  sampleTick (lit "20150803 16:34" ++ seconds) ⟨h, by
    rw [List.length_append]
    exact Nat.le_add_right 14 _⟩

theorem slot_earlyTick {seconds : JString} (h : IsField (lit "20150803 16:34" ++ seconds)) :
    (earlyTick seconds h).slot = lit "20150803 16:34" := by
  change (lit "20150803 16:34" ++ seconds).take 14 = _
  rw [List.take_append_of_le_length (by decide)]
  decide

/-- A minute before those of `twoMinutes`. -/
def threeMinutes (first second : Tick Jdk.sample) : List (Tick Jdk.sample) :=
  [first, second, earlyTick (lit ":03.789") (by decide)] ++ twoMinutes

theorem minuteBlocks_threeMinutes {first second : Tick Jdk.sample}
    (hfirst : first.slot = lit "20150803 16:34") (hsecond : second.slot = lit "20150803 16:34") :
    minuteBlocks (threeMinutes first second) =
      [first, second, earlyTick (lit ":03.789") (by decide)] :: minuteBlocks twoMinutes := by
  have hslot : ∀ t ∈ [first, second, earlyTick (lit ":03.789") (by decide)],
      t.slot = lit "20150803 16:34" :=
    List.forall_mem_cons.mpr ⟨hfirst, List.forall_mem_cons.mpr ⟨hsecond,
      List.forall_mem_singleton.mpr (slot_earlyTick _)⟩⟩
  refine minuteBlocks_minute_append (List.cons_ne_nil _ _) hslot ?_
  rintro y ⟨⟩
  decide +kernel

/-- The first two of the three ticks at 16:34 change places. -/
theorem written_reordered_threeMinutes :
    (main Jdk.sample ((threeMinutes (earlyTick (lit ":01.123") (by decide))
      (earlyTick (lit ":02.456") (by decide))).map Tick.line)).written =
    (main Jdk.sample ((threeMinutes (earlyTick (lit ":02.456") (by decide))
      (earlyTick (lit ":01.123") (by decide))).map Tick.line)).written := by
  have hsample : ∀ t ∈ threeMinutes (earlyTick (lit ":01.123") (by decide))
      (earlyTick (lit ":02.456") (by decide)), ∃ time htime, t = sampleTick time htime := by
    simp only [threeMinutes, twoMinutes, List.cons_append, List.nil_append, List.forall_mem_cons]
    exact ⟨⟨_, _, rfl⟩, ⟨_, _, rfl⟩, ⟨_, _, rfl⟩, ⟨_, _, rfl⟩, ⟨_, _, rfl⟩, by simp⟩
  have hpair : ∀ t ∈ threeMinutes (earlyTick (lit ":01.123") (by decide))
      (earlyTick (lit ":02.456") (by decide)), t.currencyPair = lit "USD/JPY" := by
    intro t ht
    obtain ⟨time, htime, rfl⟩ := hsample t ht
    rfl
  refine written_reordered (fun t ht => ?_) hpair ?_
  · obtain ⟨time, htime, rfl⟩ := hsample t ht
    exact sampleTick_betweenSentinels time htime
  · rw [minuteBlocks_threeMinutes (slot_earlyTick _) (slot_earlyTick _),
      minuteBlocks_threeMinutes (slot_earlyTick _) (slot_earlyTick _)]
    refine List.Forall₂.cons ⟨List.Perm.swap _ _ _, ?_⟩
      (List.forall₂_same.mpr fun block _ => ⟨List.Perm.refl block, rfl⟩)
    simp only [List.getLast?_cons_cons]

end Reordering

end DataPrep

end Forex
