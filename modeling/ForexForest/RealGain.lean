import ForexForest.Entropy
import ForexForest.SplitSearch

/-!
# The learner over the reals

`Exact` is real arithmetic with a not-a-number, which stands for the results of
`0 / 0` and of the logarithm outside its domain.  Over it `calcEntropy` is the
entropy of the label classes (`calcEntropy_eq`), the gain of a cut is
`Entropy.gain`, and the loops of `buildDTree` are the first-maximum scan:

* `search_eq` — the best split is the first cut of maximal gain, provided that
  the gain clears `Double.MIN_VALUE`;
* `exists_gaining_cut` — a mixed list always has such a cut, up to the length
  that a Java list can have.
-/

namespace Forex

open Java Arith

/-- A real number, or no number. -/
abbrev Exact := Option ℝ

noncomputable instance Exact.arith : Arith Exact where
  ofNat n := some n
  sub a b := Option.map₂ (· - ·) a b
  mul a b := Option.map₂ (· * ·) a b
  div a b := Option.bind b fun y => if y = 0 then none else a.map (· / y)
  log a := a.bind fun x => if 0 < x then some (Real.log x) else none
  isZero a := decide (a = some 0)
  gt a b := decide (∃ x ∈ a, ∃ y ∈ b, y < x)
  minValue := some Double.MIN_VALUE.toReal

namespace Exact

/-- On numbers the operations are those of the reals. -/
theorem sub_some (x y : ℝ) : sub (some x : Exact) (some y) = some (x - y) := rfl

theorem mul_some (x y : ℝ) : mul (some x : Exact) (some y) = some (x * y) := rfl

theorem div_some {x y : ℝ} (hy : y ≠ 0) : div (some x : Exact) (some y) = some (x / y) :=
  if_neg hy

theorem log_some {x : ℝ} (hx : 0 < x) : log (some x : Exact) = some (Real.log x) :=
  if_pos hx

/-- Only the number zero is zero. -/
theorem isZero_iff {a : Exact} : isZero a = true ↔ a = some 0 :=
  decide_eq_true_iff

/-- Numbers compare as reals. -/
theorem gt_some (x y : ℝ) : gt (some x : Exact) (some y) = true ↔ y < x := by
  simp [gt]

end Exact

/-- The three label classes that `calcEntropy` counts. -/
inductive LabelClass where
  | rise
  | drop
  | constant
deriving DecidableEq

instance : Fintype LabelClass where
  elems := {.rise, .drop, .constant}
  complete k := by cases k <;> decide

/-- The class of a candle's label. -/
def classOf (cs : CandleStick) : LabelClass :=
  if cs.label = 1 then .rise else if cs.label = -1 then .drop else .constant

/-- The counters hold the class counts. -/
theorem foldl_add (l : List CandleStick) (counts : LabelCounts) :
    l.foldl LabelCounts.add counts =
      ⟨counts.riseCount + Entropy.count classOf .rise l,
        counts.dropCount + Entropy.count classOf .drop l,
        counts.constantCount + Entropy.count classOf .constant l⟩ := by
  induction l generalizing counts with
  | nil => simp [Entropy.count]
  | cons cs l ih =>
      rw [List.foldl_cons, ih]
      simp only [Entropy.count_cons]
      by_cases hrise : cs.label = 1
      · simp [LabelCounts.add, classOf, hrise, Nat.add_comm, Nat.add_left_comm]
      · by_cases hdrop : cs.label = -1
        · simp [LabelCounts.add, classOf, hdrop, Nat.add_comm, Nat.add_left_comm]
        · simp [LabelCounts.add, classOf, hrise, hdrop, Nat.add_comm, Nat.add_left_comm]

/-- Subtracting `p * log p` adds the entropy term of `p`, also for the frequency
zero, where the code skips the logarithm. -/
theorem subtractTerm_some (e : ℝ) {p : ℝ} (hp : 0 ≤ p) :
    subtractTerm (some e : Exact) (some p) = some (e + Real.negMulLog p) := by
  unfold subtractTerm
  split_ifs with hzero
  · have h0 : p = 0 := Option.some.inj (Exact.isZero_iff.mp hzero)
    rw [h0, Real.negMulLog_zero, add_zero]
  · have h0 : p ≠ 0 := fun h => hzero (Exact.isZero_iff.mpr (congrArg some h))
    have hpos : 0 < p := lt_of_le_of_ne hp h0.symm
    rw [Exact.log_some hpos, Exact.mul_some, Exact.sub_some, Real.negMulLog]
    congr 1
    ring

/-- `calcEntropy` is the entropy of the label classes. -/
theorem calcEntropy_eq {l : List CandleStick} (hne : l ≠ []) :
    (calcEntropy l : Exact) = some (Entropy.entropy classOf l) := by
  have hn : (l.length : ℝ) ≠ 0 := Nat.cast_ne_zero.mpr (List.length_pos_iff.mpr hne).ne'
  have hprob : ∀ k, div (ofNat (Entropy.count classOf k l) : Exact) (ofNat l.length) =
      (some (Entropy.count classOf k l / l.length : ℝ) : Exact) := fun k => Exact.div_some hn
  have hnonneg : ∀ k, (0 : ℝ) ≤ Entropy.count classOf k l / l.length := fun k => by positivity
  have hclasses : (Finset.univ : Finset LabelClass) = {.rise, .drop, .constant} := rfl
  simp only [calcEntropy, foldl_add, Nat.zero_add, hprob]
  rw [show (ofNat 0 : Exact) = some ((0 : ℕ) : ℝ) from rfl, subtractTerm_some _ (hnonneg _),
    subtractTerm_some _ (hnonneg _), subtractTerm_some _ (hnonneg _), Entropy.entropy, hclasses,
    Finset.sum_insert (by decide), Finset.sum_insert (by decide), Finset.sum_singleton,
    Nat.cast_zero, zero_add, add_assoc]

/-- The entropy of a non-empty list is zero exactly when it has one class. -/
theorem isZero_calcEntropy_iff {l : List CandleStick} (hne : l ≠ []) :
    isZero (calcEntropy l : Exact) = true ↔ ∀ a ∈ l, ∀ b ∈ l, classOf a = classOf b := by
  rw [Exact.isZero_iff, calcEntropy_eq hne, Option.some_inj]
  exact Entropy.entropy_eq_zero_iff classOf

namespace Cut

/-- The real information gain of a cut. -/
noncomputable def realGain (c : Cut) : ℝ := Entropy.gain classOf c.left c.right

/-- The gain beats the initial value of the best gain. -/
def Gains (c : Cut) : Prop := Double.MIN_VALUE.toReal < c.realGain

noncomputable instance : DecidablePred Gains := Classical.decPred _

end Cut

section Search

variable {featureIdx : List Int} {instances : List CandleStick}

/-- In any order of the instances and at any position that leaves neither side
empty, the computed gain is the real one. -/
theorem gain_eq_realGain {c : Cut} (hperm : c.instances.Perm instances) (hleft : c.left ≠ [])
    (hright : c.right ≠ []) :
    c.gain calcEntropy (calcEntropy instances : Exact) = some c.realGain := by
  have hwhole : Entropy.entropy classOf instances =
      Entropy.entropy classOf (c.left ++ c.right) := by
    rw [Cut.left_append_right]
    exact (Entropy.entropy_perm classOf hperm).symm
  have hne : c.instances ≠ [] := by
    rw [← Cut.left_append_right]
    exact List.append_ne_nil_of_left_ne_nil hleft c.right
  have hn : ((c.instances.length : ℕ) : ℝ) ≠ 0 := (Entropy.cast_length_pos hne).ne'
  rw [Cut.gain, calcEntropy_eq (mt (fun h => (h ▸ hperm).eq_nil) hne), calcEntropy_eq hleft,
    calcEntropy_eq hright, infoGain]
  change sub (sub _ (mul (div (some _) (some _)) _)) (mul (div (some _) (some _)) _) = _
  rw [Exact.div_some hn, Exact.div_some hn, Exact.mul_some, Exact.mul_some, Exact.sub_some,
    Exact.sub_some, Cut.realGain, Entropy.gain, hwhole, Cut.left_append_right]

/-- The gain that the loops compute is the real one. -/
theorem gain_eq {c : Cut} (hc : c ∈ cuts featureIdx instances) :
    c.gain calcEntropy (calcEntropy instances : Exact) = some c.realGain :=
  gain_eq_realGain (mem_cuts hc).2.1 (Cut.left_ne_nil hc) (Cut.right_ne_nil hc)

/-- A larger gain beats the initial value too. -/
theorem gains_of_le (c d : Cut) (hc : c.Gains) (hcd : c.realGain ≤ d.realGain) : d.Gains :=
  lt_of_lt_of_le hc hcd

/-- The comparisons of the loops are those of the real gains. -/
theorem decides_realGain (featureIdx : List Int) (instances : List CandleStick) :
    Decides calcEntropy (calcEntropy instances : Exact) Cut.realGain Cut.Gains
      (cuts featureIdx instances) where
  bar c hc := by
    rw [gain_eq hc]
    exact Exact.gt_some _ _
  beats b hb c hc _ := by
    rw [gain_eq hb, gain_eq hc]
    exact Exact.gt_some _ _
  rising := gains_of_le

/-- The loops find the winner among the cuts. -/
theorem search_eq (featureIdx : List Int) (instances : List CandleStick) :
    (search calcEntropy (calcEntropy instances : Exact) featureIdx instances).2 =
      recorded calcEntropy (calcEntropy instances)
        (Scan.winner Cut.realGain Cut.Gains (cuts featureIdx instances)) :=
  search_eq_winner (decides_realGain featureIdx instances)

/-- The longest list that Java can hold. -/
def maxListLength : Nat := 2 ^ 31 - 1

/-- The least gain of the head of a mixed list beats `Double.MIN_VALUE`. -/
theorem minValue_lt_head_gain {n : ℕ} (hn : n + 1 ≤ maxListLength) :
    Double.MIN_VALUE.toReal < 1 / ((n + 1 : ℕ) * (2 * n + 1) : ℝ) := by
  have hmin : Double.MIN_VALUE.toReal = 1 / 2 ^ 1074 := by
    simp [Double.toReal, Double.scaled, Double.MIN_VALUE, units]
  rw [maxListLength] at hn
  have hsmall : (n + 1) * (2 * n + 1) ≤ 2 ^ 31 * 2 ^ 32 := Nat.mul_le_mul (by omega) (by omega)
  have hcast : ((n + 1 : ℕ) * (2 * n + 1) : ℝ) ≤ 2 ^ 31 * 2 ^ 32 := by exact_mod_cast hsmall
  have hlarge : (2 ^ 31 * 2 ^ 32 : ℝ) < 2 ^ 1074 := by
    rw [← pow_add]
    exact pow_lt_pow_right₀ one_lt_two (by norm_num)
  rw [hmin]
  exact one_div_lt_one_div_of_lt (by positivity) (hcast.trans_lt hlarge)

/-- In a mixed list the loops meet a cut that gains: the first one does. -/
theorem exists_gaining_cut (hne : featureIdx ≠ []) (hlen : instances.length ≤ maxListLength)
    {a b : CandleStick} (ha : a ∈ instances) (hb : b ∈ instances) (hab : classOf a ≠ classOf b) :
    ∃ c ∈ cuts featureIdx instances, c.Gains := by
  obtain ⟨i, rest, rfl⟩ := List.exists_cons_of_ne_nil hne
  have hperm := sortBy_perm i instances
  obtain ⟨x, tail, hsorted⟩ : ∃ x tail, sortBy i instances = x :: tail :=
    List.exists_cons_of_ne_nil (List.ne_nil_of_mem (hperm.mem_iff.mpr ha))
  rw [hsorted] at hperm
  obtain ⟨y, hy, hyx⟩ : ∃ y ∈ tail, classOf y ≠ classOf x := by
    by_contra hall
    push Not at hall
    have huniform : ∀ z ∈ instances, classOf z = classOf x := by
      intro z hz
      rcases List.mem_cons.mp (hperm.mem_iff.mpr hz) with rfl | hz
      · rfl
      · exact hall z hz
    exact hab ((huniform a ha).trans (huniform b hb).symm)
  have htail : 1 ≤ tail.length := List.length_pos_of_mem hy
  have hlength : tail.length + 1 = instances.length := by
    rw [← hperm.length_eq, List.length_cons]
  refine ⟨⟨i, x :: tail, 1⟩, ?_, ?_⟩
  · rw [cuts, hsorted]
    refine List.mem_append_left _ (List.mem_map.mpr ⟨1, ?_, rfl⟩)
    rw [List.mem_range'_1, List.length_cons]
    omega
  · exact (minValue_lt_head_gain (hlength ▸ hlen)).trans_le (Entropy.gain_head classOf hy hyx)

/-- In a mixed list the first cut of maximal gain gains: the loops choose it. -/
theorem exists_first_gaining_cut (hne : featureIdx ≠ []) (hlen : instances.length ≤ maxListLength)
    {a b : CandleStick} (ha : a ∈ instances) (hb : b ∈ instances) (hab : classOf a ≠ classOf b) :
    ∃ c : Cut, c.Gains ∧ Scan.IsFirstMax Cut.realGain (cuts featureIdx instances) c := by
  obtain ⟨c, hc, hgains⟩ := exists_gaining_cut hne hlen ha hb hab
  cases hwinner : Scan.winner Cut.realGain Cut.Gains (cuts featureIdx instances) with
  | none => exact absurd hgains ((Scan.winner_eq_none_iff gains_of_le).mp hwinner c hc)
  | some best => exact ⟨best, (Scan.winner_eq_some_iff gains_of_le).mp hwinner⟩

end Search

end Forex
