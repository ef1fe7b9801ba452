import ForexForest.LeafPurity

/-!
# The chosen split has the first greatest gain

The two loops of `buildDTree` select the lexicographically first pair of a
feature and an index whose gain is maximal, and nothing when no gain beats the
initial one.  The gains are whatever numbers the arithmetic computes; all that is
asked of it is that its `>` compares numbers, and is false on a NaN
(`ReadsNumbers`).
-/

namespace Forex

open Java Arith

section ArgMax

variable {D : Type} [Arith D] {featureIdx : List Int} {instances : List CandleStick}

/-- The gain that the loops compute for a candidate pair. -/
def gainAt (entropyOf : List CandleStick → D) (featureIdx : List Int)
    (instances : List CandleStick) (p : Nat × Nat) : D :=
  (cutAt featureIdx instances p).gain entropyOf (entropyOf instances)

/-- The pair is the lexicographically first one whose gain is maximal among all
pairs and above the initial gain. -/
structure IsSelected (entropyOf : List CandleStick → D) (featureIdx : List Int)
    (instances : List CandleStick) (p : Nat × Nat) : Prop where
  candidate : p.1 < featureIdx.length ∧ 1 ≤ p.2 ∧ p.2 < instances.length
  gains : gt (gainAt entropyOf featureIdx instances p) minValue = true
  maximal : ∀ q ∈ candidates featureIdx instances,
    ¬ gt (gainAt entropyOf featureIdx instances q) (gainAt entropyOf featureIdx instances p) = true
  first : ∀ q ∈ candidates featureIdx instances, Prod.Lex (· < ·) (· < ·) q p →
    gt (gainAt entropyOf featureIdx instances q) minValue = true →
    gt (gainAt entropyOf featureIdx instances p) (gainAt entropyOf featureIdx instances q) = true

/-- `value` reads the doubles as numbers, a NaN as `⊥`, and `>` compares the
numbers. -/
def ReadsNumbers {K : Type} [LinearOrder K] (value : D → WithBot K) : Prop :=
  ∀ a b, gt a b = true ↔ value b ≠ ⊥ ∧ value b < value a

section Reading

variable {K : Type} [LinearOrder K] {value : D → WithBot K} (hvalue : ReadsNumbers value)
include hvalue

/-- Against a number, the comparison of the code is the order of the readings. -/
theorem ReadsNumbers.gt_iff {a b : D} (hb : value b ≠ ⊥) : gt a b = true ↔ value b < value a :=
  (hvalue a b).trans (and_iff_right hb)

/-- What is greater than something is a number. -/
theorem ReadsNumbers.ne_bot_of_gt {a b : D} (h : gt a b = true) : value a ≠ ⊥ :=
  (bot_le.trans_lt ((hvalue a b).mp h).2).ne'

/-- What beats a number still does when it grows. -/
theorem ReadsNumbers.gt_of_le {a b c : D} (h : gt a c = true) (hab : value a ≤ value b) :
    gt b c = true := by
  obtain ⟨hc, hlt⟩ := (hvalue a c).mp h
  exact (hvalue b c).mpr ⟨hc, hlt.trans_le hab⟩

/-- Under such a reading the loops are a scan by the numbers of the gains. -/
theorem ReadsNumbers.decides (entropyOf : List CandleStick → D) (entropy : D) (cs : List Cut) :
    Decides entropyOf entropy (fun c => value (c.gain entropyOf entropy))
      (fun c => gt (c.gain entropyOf entropy) minValue = true) cs where
  bar _ _ := Iff.rfl
  beats _ _ _ _ hb := hvalue.gt_iff (hvalue.ne_bot_of_gt hb)
  rising _ _ hb hbc := hvalue.gt_of_le hb hbc

/-- The winner of the scan over the pairs is the selected one. -/
theorem ReadsNumbers.isSelected_iff (entropyOf : List CandleStick → D) {p : Nat × Nat} :
    IsSelected entropyOf featureIdx instances p ↔
      gt (gainAt entropyOf featureIdx instances p) minValue = true ∧
        Scan.IsFirstMax (fun q => value (gainAt entropyOf featureIdx instances q))
          (candidates featureIdx instances) p := by
  rw [Scan.isFirstMax_iff_of_pairwise candidates_pairwise]
  constructor
  · intro h
    have hp := hvalue.ne_bot_of_gt h.gains
    have hmaximal : ∀ q ∈ candidates featureIdx instances,
        value (gainAt entropyOf featureIdx instances q) ≤
          value (gainAt entropyOf featureIdx instances p) :=
      fun q hq => not_lt.mp (mt (hvalue.gt_iff hp).mpr (h.maximal q hq))
    refine ⟨h.gains, mem_candidates.mpr h.candidate, hmaximal, ?_⟩
    intro q hq hlex
    -- an earlier pair of the same gain would beat the bar too
    refine lt_of_le_of_ne (hmaximal q hq) fun heq => ?_
    have hgains := hvalue.gt_of_le h.gains heq.ge
    have hlt := (hvalue.gt_iff (hvalue.ne_bot_of_gt hgains)).mp (h.first q hq hlex hgains)
    exact absurd heq hlt.ne
  · rintro ⟨hgains, hmem, hmax, hfirst⟩
    have hp := hvalue.ne_bot_of_gt hgains
    refine ⟨mem_candidates.mp hmem, hgains, ?_, ?_⟩
    · intro q hq hgt
      exact absurd (hmax q hq) (not_le_of_gt ((hvalue.gt_iff hp).mp hgt))
    · intro q hq hlex hgainsq
      exact (hvalue.gt_iff (hvalue.ne_bot_of_gt hgainsq)).mpr (hfirst q hq hlex)

/-- The loops leave the initial values when no gain beats the initial one, and
the snapshot of the selected pair otherwise. -/
theorem ReadsNumbers.search_argmax (entropyOf : List CandleStick → D) (featureIdx : List Int)
    (instances : List CandleStick) :
    ((∀ p ∈ candidates featureIdx instances,
        ¬ gt (gainAt entropyOf featureIdx instances p) minValue = true) ∧
      (search entropyOf (entropyOf instances) featureIdx instances).2 = Best.start) ∨
    ∃ p, IsSelected entropyOf featureIdx instances p ∧
      (search entropyOf (entropyOf instances) featureIdx instances).2 =
        (cutAt featureIdx instances p).snapshot entropyOf (entropyOf instances) := by
  have hsearch := search_eq_winner
    (hvalue.decides entropyOf (entropyOf instances) (cuts featureIdx instances))
  rw [cuts_eq_map, Scan.winner_map] at hsearch
  have hrising : ∀ p q : Nat × Nat, gt (gainAt entropyOf featureIdx instances p) minValue = true →
      value (gainAt entropyOf featureIdx instances p) ≤
        value (gainAt entropyOf featureIdx instances q) →
      gt (gainAt entropyOf featureIdx instances q) minValue = true :=
    fun _ _ => hvalue.gt_of_le
  cases hwinner : Scan.winner
      (fun q => value (gainAt entropyOf featureIdx instances q))
      (fun q => gt (gainAt entropyOf featureIdx instances q) minValue = true)
      (candidates featureIdx instances) with
  | none =>
      refine Or.inl ⟨(Scan.winner_eq_none_iff hrising).mp hwinner, hsearch.trans ?_⟩
      exact congrArg (fun best => recorded entropyOf (entropyOf instances)
        (Option.map (cutAt featureIdx instances) best)) hwinner
  | some p =>
      have hselected := (hvalue.isSelected_iff entropyOf).mpr
        ((Scan.winner_eq_some_iff hrising).mp hwinner)
      refine Or.inr ⟨p, hselected, hsearch.trans ?_⟩
      exact congrArg (fun best => recorded entropyOf (entropyOf instances)
        (Option.map (cutAt featureIdx instances) best)) hwinner

end Reading

/-- **The split search is an arg max.**  At an impure node `buildDTree` either
finds no gain above the initial one and leaves a leaf, or selects the
lexicographically first pair of maximal gain; the test feature, the threshold
and both children are those of the list as it was sorted for that pair, whatever
was sorted afterwards. -/
theorem buildDTree_selects_argmax {K : Type} [LinearOrder K] {value : D → WithBot K}
    (hvalue : ReadsNumbers value) (featureIdx : List Int)
    (hrange : ∀ i ∈ featureIdx, IsFeature i) (instances : List CandleStick)
    (himpure : ¬ isZero (calcEntropy instances : D) = true) :
    ((∀ p ∈ candidates featureIdx instances,
        ¬ gt (gainAt (calcEntropy : List CandleStick → D) featureIdx instances p) minValue = true) ∧
      (Forest.buildDTree featureIdx instances : DTNode D) =
        leafNode (sortedUpTo featureIdx instances featureIdx.length) (calcEntropy instances)) ∨
    ∃ j idx f threshold,
      IsSelected (calcEntropy : List CandleStick → D) featureIdx instances (j, idx) ∧
      featureIdx[j]? = some f ∧ (sortedUpTo featureIdx instances (j + 1))[idx]? = some threshold ∧
      (Forest.buildDTree featureIdx instances : DTNode D) =
        .node (sortedUpTo featureIdx instances featureIdx.length) (calcEntropy instances)
          (Forest.buildDTree featureIdx ((sortedUpTo featureIdx instances (j + 1)).take idx))
          (Forest.buildDTree featureIdx ((sortedUpTo featureIdx instances (j + 1)).drop idx))
          f (some threshold) := by
  have hstop : ¬ StopsHere (calcEntropy : List CandleStick → D) false instances :=
    mt (stopsHere_false_iff _).mp himpure
  rcases hvalue.search_argmax (calcEntropy : List CandleStick → D) featureIdx instances with
    ⟨hnone, hstart⟩ | ⟨⟨j, idx⟩, hselected, hbest⟩
  · exact Or.inl ⟨hnone, growTree_of_exhausted hstop (congrArg Best.bestAttr hstart)⟩
  · obtain ⟨hj, -, hidx⟩ := hselected.candidate
    have hlength : idx < (sortedUpTo featureIdx instances (j + 1)).length := by
      rw [(sortedUpTo_perm (j + 1)).length_eq]
      exact hidx
    have hfeature : (cutAt featureIdx instances (j, idx)).attr = featureIdx[j] :=
      List.getD_eq_getElem _ _ hj
    have hattr : (cutAt featureIdx instances (j, idx)).attr ≠ -1 := by
      have := hrange featureIdx[j] (List.getElem_mem hj)
      rw [hfeature]
      unfold IsFeature at this
      omega
    refine Or.inr ⟨j, idx, featureIdx[j], (sortedUpTo featureIdx instances (j + 1))[idx],
      hselected, List.getElem?_eq_getElem hj, List.getElem?_eq_getElem hlength, ?_⟩
    rw [← List.getElem?_eq_getElem hlength, ← hfeature]
    exact growTree_of_snapshot hstop hattr hbest

end ArgMax

/-- Exact numbers are compared as real numbers. -/
theorem Exact.readsNumbers : ReadsNumbers fun a : Exact => (a : WithBot ℝ) := by
  intro a b
  cases a with
  | none =>
      have hnot : ∀ w : WithBot ℝ, ¬ w < ⊥ := fun _ => not_lt_bot
      exact iff_of_false (by simp [gt]) fun h => hnot b h.2
  | some x =>
      cases b with
      | none => exact iff_of_false (by simp [gt]) fun h => h.1 rfl
      | some y =>
          have hcoe : ((y : WithBot ℝ) < (x : WithBot ℝ)) ↔ y < x := WithBot.coe_lt_coe
          rw [Exact.gt_some]
          exact ⟨fun h => ⟨WithBot.coe_ne_bot, hcoe.mpr h⟩, fun h => hcoe.mp h.2⟩

/-- On a falling and a rising candle of one minute a split is selected. -/
theorem buildDTree_selects_argmax_pair :
    ∃ p, IsSelected (calcEntropy : List CandleStick → Exact) [0, 1]
      [fallingCandle, risingCandle] p := by
  have hclasses : classOf fallingCandle ≠ classOf risingCandle := by decide
  have hfalling : fallingCandle ∈ [fallingCandle, risingCandle] := List.mem_cons_self
  have hrising : risingCandle ∈ [fallingCandle, risingCandle] :=
    List.mem_cons_of_mem _ List.mem_cons_self
  have himpure : ¬ isZero (calcEntropy [fallingCandle, risingCandle] : Exact) = true := by
    intro hzero
    exact hclasses ((isZero_calcEntropy_iff (List.cons_ne_nil _ _)).mp hzero _ hfalling _ hrising)
  rcases buildDTree_selects_argmax Exact.readsNumbers [0, 1] (by simp [IsFeature])
    [fallingCandle, risingCandle] himpure with ⟨hnone, -⟩ | ⟨j, idx, -, -, hselected, -, -, -⟩
  · obtain ⟨c, hc, hgains⟩ := exists_gaining_cut (List.cons_ne_nil (0 : Int) [1])
      (by decide : [fallingCandle, risingCandle].length ≤ maxListLength) hfalling hrising hclasses
    have hbar := ((decides_realGain [0, 1] [fallingCandle, risingCandle]).bar c hc).mpr hgains
    rw [cuts_eq_map] at hc
    obtain ⟨p, hp, rfl⟩ := List.mem_map.mp hc
    exact absurd hbar (hnone p hp)
  · exact ⟨(j, idx), hselected⟩

end Forex
