import Mathlib

/-!
# The entropy of a labelled list

The entropy of a list under a classification `cls` into finitely many classes
is `∑ -p log p` over the class frequencies `p`, and the gain of a cut is the
entropy of the whole less the weighted entropies of the two sides.

Scaled by the length, the entropy is a difference of values of
`mulLog n = n log n` (`length_mul_entropy`), so the gain of cutting off one
element is a difference of two increments of `mulLog`.  The increments grow
(`increment_gap`), which gives the main result:

* `gain_head` — cutting off the first element of a list of `n` elements that
  also has an element of another class gains at least `1 / (n (2n - 1))`.

The function `-p log p` is strictly concave, so a cut gains nothing exactly when
its sides have the same class frequencies (`gain_eq_zero_iff`), and no more than
the whole entropy (`gain_eq_entropy_iff`); the entropy of `k` classes is at most
`log k` (`entropy_le_log_card`).
-/

namespace Entropy

open Real Finset

/-- `n log n`. -/
noncomputable def mulLog (n : ℕ) : ℝ := n * log n

/-- The growth of `mulLog` from `m` to `m + 1`. -/
noncomputable def increment (m : ℕ) : ℝ := mulLog (m + 1) - mulLog m

@[simp] theorem mulLog_zero : mulLog 0 = 0 := by simp [mulLog]

@[simp] theorem mulLog_one : mulLog 1 = 0 := by simp [mulLog]

/-- The increments grow by at least `1 / (2m + 3)`. -/
theorem increment_gap (m : ℕ) :
    1 / (2 * m + 3 : ℝ) ≤ increment (m + 1) - increment m := by
  have hm : (0 : ℝ) ≤ m := Nat.cast_nonneg m
  -- with `t = m + 1`: the step up weighs more than the step down
  have hup : 2 / (2 * m + 3 : ℝ) ≤ log (m + 2) - log (m + 1) := by
    have hlog := le_log_one_add_of_nonneg (x := 1 / (m + 1 : ℝ)) (by positivity)
    have hleft : 2 * (1 / (m + 1 : ℝ)) / (1 / (m + 1) + 2) = 2 / (2 * m + 3) := by
      field_simp
      ring
    have hright : log (1 + 1 / (m + 1 : ℝ)) = log (m + 2) - log (m + 1) := by
      rw [← log_div (by positivity) (by positivity)]
      congr 1
      field_simp
      ring
    rwa [hleft, hright] at hlog
  have hdown : -1 ≤ m * (log m - log (m + 1)) := by
    rcases Nat.eq_zero_or_pos m with rfl | hpos
    · simp
    · have hmpos : (0 : ℝ) < m := Nat.cast_pos.mpr hpos
      have hlog := log_le_sub_one_of_pos (x := (m + 1 : ℝ) / m) (by positivity)
      rw [log_div (by positivity) hmpos.ne'] at hlog
      have hmul := mul_le_mul_of_nonneg_left hlog hm
      have hone : m * ((m + 1 : ℝ) / m - 1) = 1 := by
        field_simp
        ring
      rw [hone] at hmul
      linarith
  have hexpand : increment (m + 1) - increment m =
      (m + 2) * (log (m + 2) - log (m + 1)) + m * (log m - log (m + 1)) := by
    simp only [increment, mulLog]
    push_cast
    rw [show (m + 1 + 1 : ℝ) = m + 2 by ring]
    ring
  calc 1 / (2 * m + 3 : ℝ) = (m + 2) * (2 / (2 * m + 3)) + -1 := by
        field_simp
        ring
    _ ≤ (m + 2) * (log (m + 2) - log (m + 1)) + m * (log m - log (m + 1)) := by
        gcongr
    _ = increment (m + 1) - increment m := hexpand.symm

/-- The increments of `m * log m` grow, since each step up is positive. -/
theorem increment_mono : Monotone increment := by
  apply monotone_nat_of_le_succ
  intro m
  have hgap := increment_gap m
  have hpos : (0 : ℝ) ≤ 1 / (2 * m + 3) := by positivity
  linarith

section Count

variable {α κ : Type} [DecidableEq κ] (cls : α → κ)

/-- The number of elements of a class. -/
def count (k : κ) (l : List α) : ℕ := l.countP (cls · = k)

/-- Counting one element more. -/
theorem count_cons (k : κ) (x : α) (l : List α) :
    count cls k (x :: l) = count cls k l + if cls x = k then 1 else 0 := by
  simp [count, List.countP_cons]

theorem count_le_length (k : κ) (l : List α) : count cls k l ≤ l.length :=
  List.countP_le_length

end Count

section Sides

variable {α κ : Type} [DecidableEq κ] (cls : α → κ) {left right : List α}

theorem cast_length_pos {l : List α} (hne : l ≠ []) : (0 : ℝ) < l.length :=
  Nat.cast_pos.mpr (List.length_pos_iff.mpr hne)

/-- Every class has the same frequency on both sides. -/
def SameProportions (left right : List α) : Prop :=
  ∀ k, (count cls k left / left.length : ℝ) = count cls k right / right.length

/-- What one class contributes to the gain. -/
noncomputable def classGain (left right : List α) (k : κ) : ℝ :=
  negMulLog (count cls k (left ++ right) / (left ++ right).length)
    - left.length / (left ++ right).length * negMulLog (count cls k left / left.length)
    - right.length / (left ++ right).length * negMulLog (count cls k right / right.length)

/-- The sides weigh one together. -/
theorem weights_add (hleft : left ≠ []) :
    (left.length / (left ++ right).length : ℝ) + right.length / (left ++ right).length = 1 := by
  have hn : (left.length : ℝ) + right.length ≠ 0 := by
    have hl := cast_length_pos hleft
    positivity
  rw [List.length_append, Nat.cast_add, ← add_div, div_self hn]

/-- The frequency in the whole list is the mean of those on the sides. -/
theorem frequency_append (hleft : left ≠ []) (hright : right ≠ []) (k : κ) :
    (count cls k (left ++ right) / (left ++ right).length : ℝ) =
      left.length / (left ++ right).length * (count cls k left / left.length) +
        right.length / (left ++ right).length * (count cls k right / right.length) := by
  have hl := (cast_length_pos hleft).ne'
  have hr := (cast_length_pos hright).ne'
  rw [div_mul_div_comm, div_mul_div_comm, mul_comm _ (left.length : ℝ),
    mul_comm _ (right.length : ℝ), mul_div_mul_left _ _ hl, mul_div_mul_left _ _ hr, ← add_div,
    count, List.countP_append, Nat.cast_add]
  rfl

/-- Where the frequencies differ the mean has more entropy. -/
theorem classGain_pos (hleft : left ≠ []) (hright : right ≠ []) {k : κ}
    (hne : (count cls k left / left.length : ℝ) ≠ count cls k right / right.length) :
    0 < classGain cls left right k := by
  have hl := cast_length_pos hleft
  have hr := cast_length_pos hright
  have hn := cast_length_pos (List.append_ne_nil_of_left_ne_nil hleft right)
  have hconcave := strictConcaveOn_negMulLog.2
    (Set.mem_Ici.mpr (by positivity)) (Set.mem_Ici.mpr (by positivity)) hne
    (div_pos hl hn) (div_pos hr hn) (weights_add hleft)
  simp only [smul_eq_mul] at hconcave
  rw [classGain, frequency_append cls hleft hright]
  linarith

/-- Where the frequencies agree nothing is gained. -/
theorem classGain_of_eq (hleft : left ≠ []) (hright : right ≠ []) {k : κ}
    (heq : (count cls k left / left.length : ℝ) = count cls k right / right.length) :
    classGain cls left right k = 0 := by
  rw [classGain, frequency_append cls hleft hright, ← heq, ← add_mul, weights_add hleft, one_mul,
    sub_sub, ← add_mul, weights_add hleft, one_mul, sub_self]

/-- No class loses by a cut: the two proportions are equal, or one class gains. -/
theorem classGain_nonneg (hleft : left ≠ []) (hright : right ≠ []) (k : κ) :
    0 ≤ classGain cls left right k := by
  by_cases heq : (count cls k left / left.length : ℝ) = count cls k right / right.length
  · exact (classGain_of_eq cls hleft hright heq).ge
  · exact (classGain_pos cls hleft hright heq).le

end Sides

variable {α κ : Type} [Fintype κ] [DecidableEq κ] (cls : α → κ)

/-- The entropy of the class frequencies, in nats. -/
noncomputable def entropy (l : List α) : ℝ :=
  ∑ k, negMulLog (count cls k l / l.length)

/-- What a cut into `left` and `right` gains. -/
noncomputable def gain (left right : List α) : ℝ :=
  entropy cls (left ++ right)
    - left.length / (left ++ right).length * entropy cls left
    - right.length / (left ++ right).length * entropy cls right

/-- Every element is in one class. -/
theorem sum_count (l : List α) : ∑ k, count cls k l = l.length := by
  induction l with
  | nil => simp [count]
  | cons x l ih =>
      simp only [count_cons, sum_add_distrib, ih, sum_ite_eq, mem_univ, if_true, List.length_cons]

/-- The entropy is a matter of the counts, not of the order. -/
theorem entropy_perm {l l' : List α} (h : l.Perm l') : entropy cls l = entropy cls l' := by
  simp only [entropy, count, h.length_eq, h.countP_eq]

/-- Every term of the entropy is non-negative, as frequencies lie between zero and
one. -/
theorem entropy_nonneg (l : List α) : 0 ≤ entropy cls l := by
  refine sum_nonneg fun k _ => negMulLog_nonneg (by positivity) ?_
  exact div_le_one_of_le₀ (Nat.cast_le.mpr (count_le_length cls k l)) (Nat.cast_nonneg _)

/-- The entropy, scaled by the length. -/
theorem length_mul_entropy (l : List α) :
    l.length * entropy cls l = mulLog l.length - ∑ k, mulLog (count cls k l) := by
  rcases Nat.eq_zero_or_pos l.length with hzero | hpos
  · have hcount : ∀ k, count cls k l = 0 := fun k =>
      Nat.le_zero.mp (hzero ▸ count_le_length cls k l)
    simp [hzero, hcount]
  · have hn : (0 : ℝ) < l.length := Nat.cast_pos.mpr hpos
    have hterm : ∀ k, l.length * negMulLog (count cls k l / l.length) =
        count cls k l * log l.length - mulLog (count cls k l) := by
      intro k
      rcases Nat.eq_zero_or_pos (count cls k l) with hc | hc
      · simp [hc]
      · have hcpos : (0 : ℝ) < count cls k l := Nat.cast_pos.mpr hc
        rw [negMulLog, log_div hcpos.ne' hn.ne', mulLog]
        field_simp
        ring
    have hsum : ((∑ k, count cls k l : ℕ) : ℝ) = l.length := by rw [sum_count]
    rw [Nat.cast_sum] at hsum
    rw [entropy, mul_sum, sum_congr rfl fun k _ => hterm k, sum_sub_distrib, ← sum_mul, hsum,
      mulLog]

/-- A list in one class has no entropy. -/
theorem entropy_eq_zero_of_uniform {l : List α} (h : ∀ x ∈ l, ∀ y ∈ l, cls x = cls y) :
    entropy cls l = 0 := by
  refine sum_eq_zero fun k _ => ?_
  by_cases hk : ∃ x ∈ l, cls x = k
  · obtain ⟨x, hx, rfl⟩ := hk
    have hcount : count cls (cls x) l = l.length :=
      List.countP_eq_length.mpr fun y hy => by simpa using h y hy x hx
    have hn : (l.length : ℝ) ≠ 0 := Nat.cast_ne_zero.mpr (List.length_pos_of_mem hx).ne'
    rw [hcount, div_self hn, negMulLog_one]
  · have hcount : count cls k l = 0 :=
      List.countP_eq_zero.mpr fun y hy => by simpa using fun hyk => hk ⟨y, hy, hyk⟩
    simp [hcount]

/-- The gain of cutting off the first element, scaled by the length. -/
theorem length_mul_gain_head (x : α) (l : List α) :
    (l.length + 1 : ℕ) * gain cls [x] l = increment l.length - increment (count cls (cls x) l) := by
  have hn : ((l.length + 1 : ℕ) : ℝ) ≠ 0 := Nat.cast_ne_zero.mpr (Nat.succ_ne_zero _)
  have hwhole := length_mul_entropy cls (x :: l)
  have hrest := length_mul_entropy cls l
  have hhead : entropy cls [x] = 0 := entropy_eq_zero_of_uniform cls (by simp)
  have hsum : ∑ k, mulLog (count cls k (x :: l)) - ∑ k, mulLog (count cls k l) =
      increment (count cls (cls x) l) := by
    rw [← sum_sub_distrib, sum_eq_single_of_mem (cls x) (mem_univ _)]
    · rw [count_cons, if_pos rfl, increment]
    · intro k _ hk
      rw [count_cons, if_neg (Ne.symm hk), Nat.add_zero, sub_self]
  have hscaled : (l.length + 1 : ℕ) * gain cls [x] l =
      (l.length + 1 : ℕ) * entropy cls (x :: l) - l.length * entropy cls l := by
    simp only [gain, hhead, List.singleton_append, List.length_cons]
    field_simp
    ring
  rw [List.length_cons] at hwhole
  rw [hscaled, hwhole, hrest, increment]
  linarith

/-- Cutting off the first element of a mixed list gains. -/
theorem gain_head {x y : α} {l : List α} (hy : y ∈ l) (hxy : cls y ≠ cls x) :
    1 / ((l.length + 1 : ℕ) * (2 * l.length + 1) : ℝ) ≤ gain cls [x] l := by
  have hcount : count cls (cls x) l < l.length :=
    List.countP_lt_length_iff.mpr ⟨y, hy, by simpa using hxy⟩
  obtain ⟨m, hm⟩ : ∃ m, l.length = m + 1 := ⟨l.length - 1, by omega⟩
  have hmono : increment (count cls (cls x) l) ≤ increment m := increment_mono (by omega)
  have hgap := increment_gap m
  have hscaled := length_mul_gain_head cls x l
  have hn : (0 : ℝ) < (l.length + 1 : ℕ) := Nat.cast_pos.mpr (Nat.succ_pos _)
  have hcast : (2 * l.length + 1 : ℝ) = 2 * m + 3 := by
    rw [hm]
    push_cast
    ring
  rw [mul_comm, ← div_div, hcast, div_le_iff₀' hn, hscaled, hm]
  linarith

/-- A mixed list has entropy. -/
theorem entropy_pos_of_mixed {l : List α} {x y : α} (hx : x ∈ l) (hy : y ∈ l)
    (hxy : cls y ≠ cls x) : 0 < entropy cls l := by
  obtain ⟨a, rest, rfl⟩ := List.exists_cons_of_ne_nil (List.ne_nil_of_mem hx)
  obtain ⟨z, hz, hza⟩ : ∃ z ∈ rest, cls z ≠ cls a := by
    by_cases hxa : cls x = cls a
    · refine ⟨y, (List.mem_cons.mp hy).resolve_left ?_, hxa ▸ hxy⟩
      intro hya
      exact hxy (hya ▸ hxa.symm)
    · refine ⟨x, (List.mem_cons.mp hx).resolve_left ?_, hxa⟩
      intro hxa'
      exact hxa (hxa' ▸ rfl)
  have hgain := gain_head cls hz hza
  have hbound : (0 : ℝ) < 1 / ((rest.length + 1 : ℕ) * (2 * rest.length + 1)) := by positivity
  have hrest : 0 ≤ rest.length / ([a] ++ rest).length * entropy cls rest :=
    mul_nonneg (by positivity) (entropy_nonneg cls rest)
  have hhead : entropy cls [a] = 0 := entropy_eq_zero_of_uniform cls (by simp)
  rw [gain, hhead, mul_zero, sub_zero, List.singleton_append] at hgain
  rw [List.singleton_append] at hrest
  linarith

/-- The entropy vanishes on lists of one class only. -/
theorem entropy_eq_zero_iff {l : List α} :
    entropy cls l = 0 ↔ ∀ x ∈ l, ∀ y ∈ l, cls x = cls y := by
  constructor
  · intro hzero x hx y hy
    by_contra hxy
    exact (entropy_pos_of_mixed cls hy hx hxy).ne' hzero
  · exact entropy_eq_zero_of_uniform cls

/-- Equal frequencies of all classes have the greatest entropy. -/
theorem entropy_le_log_card (l : List α) : entropy cls l ≤ log (Fintype.card κ) := by
  rcases eq_or_ne l [] with rfl | hne
  · rw [entropy_eq_zero_of_uniform cls (by simp)]
    exact log_natCast_nonneg _
  have hn := (cast_length_pos hne).ne'
  have hcard : (0 : ℝ) < Fintype.card κ :=
    Nat.cast_pos.mpr (Fintype.card_pos_iff.mpr ⟨cls (l.head hne)⟩)
  have htotal : ∑ k, (count cls k l / l.length : ℝ) = 1 := by
    rw [← sum_div, ← Nat.cast_sum, sum_count, div_self hn]
  have hweights : ∑ _k : κ, (1 / Fintype.card κ : ℝ) = 1 := by
    rw [sum_const, card_univ, nsmul_eq_mul, mul_one_div_cancel hcard.ne']
  have hjensen := concaveOn_negMulLog.le_map_sum (t := univ)
    (w := fun _ : κ => (1 / Fintype.card κ : ℝ)) (p := fun k => (count cls k l / l.length : ℝ))
    (fun _ _ => by positivity) hweights (fun _ _ => Set.mem_Ici.mpr (by positivity))
  simp only [smul_eq_mul, ← mul_sum, htotal, mul_one] at hjensen
  rw [← entropy] at hjensen
  have hmean : negMulLog (1 / Fintype.card κ : ℝ) =
      1 / Fintype.card κ * log (Fintype.card κ) := by
    rw [negMulLog, one_div, log_inv]
    ring
  rw [hmean] at hjensen
  exact le_of_mul_le_mul_left hjensen (by positivity)

section Cuts

variable {left right : List α}

/-- The gain is the sum of what the classes gain. -/
theorem gain_eq_sum (left right : List α) :
    gain cls left right = ∑ k, classGain cls left right k := by
  simp only [gain, entropy, classGain, sum_sub_distrib, mul_sum]

/-- No cut loses. -/
theorem gain_nonneg (hleft : left ≠ []) (hright : right ≠ []) : 0 ≤ gain cls left right := by
  rw [gain_eq_sum]
  exact sum_nonneg fun k _ => classGain_nonneg cls hleft hright k

/-- A cut gains nothing exactly when its sides have the same frequencies. -/
theorem gain_eq_zero_iff (hleft : left ≠ []) (hright : right ≠ []) :
    gain cls left right = 0 ↔ SameProportions cls left right := by
  rw [gain_eq_sum, sum_eq_zero_iff_of_nonneg fun k _ => classGain_nonneg cls hleft hright k]
  constructor
  · intro hzero k
    by_contra hne
    exact (classGain_pos cls hleft hright hne).ne' (hzero k (mem_univ k))
  · intro hsame k _
    exact classGain_of_eq cls hleft hright (hsame k)

/-- A cut gains no more than there is: the entropies of its sides are not negative.
-/
theorem gain_le_entropy (left right : List α) :
    gain cls left right ≤ entropy cls (left ++ right) := by
  have hl : 0 ≤ left.length / (left ++ right).length * entropy cls left :=
    mul_nonneg (by positivity) (entropy_nonneg cls left)
  have hr : 0 ≤ right.length / (left ++ right).length * entropy cls right :=
    mul_nonneg (by positivity) (entropy_nonneg cls right)
  rw [gain]
  linarith

/-- A cut gains the whole entropy exactly when it leaves none on either side. -/
theorem gain_eq_entropy_iff (hleft : left ≠ []) (hright : right ≠ []) :
    gain cls left right = entropy cls (left ++ right) ↔
      entropy cls left = 0 ∧ entropy cls right = 0 := by
  have hl := cast_length_pos hleft
  have hr := cast_length_pos hright
  have hn := cast_length_pos (List.append_ne_nil_of_left_ne_nil hleft right)
  have hrest : gain cls left right = entropy cls (left ++ right) ↔
      left.length / (left ++ right).length * entropy cls left +
        right.length / (left ++ right).length * entropy cls right = 0 := by
    rw [gain, sub_sub, sub_eq_self]
  rw [hrest, add_eq_zero_iff_of_nonneg
    (mul_nonneg (by positivity) (entropy_nonneg cls left))
    (mul_nonneg (by positivity) (entropy_nonneg cls right)),
    mul_eq_zero_iff_left (div_pos hl hn).ne', mul_eq_zero_iff_left (div_pos hr hn).ne']

end Cuts

end Entropy
