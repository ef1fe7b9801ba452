import ForexForest.JdkText

/-!
# Comparing numbers by their text

`String.compareTo` looks at two strings from the front, so on strings of the
same number of decimal digits, leading zeros included, it compares the numbers
(`sign_compareTo_digits`).  Separators at the same positions do not matter
(`compareTo_append`).  On doubles `Double.compareTo` compares the real numbers,
negative zero apart (`sign_compareTo_toReal`).
-/

namespace Java

/-- A text of `n` decimal digits. -/
def IsDigits (n : Nat) (s : JString) : Prop :=
  s.length = n ∧ ∀ c ∈ s, 48 ≤ c.val ∧ c.val ≤ 57

instance (n : Nat) (s : JString) : Decidable (IsDigits n s) :=
  haveI := List.decidableBAll (fun c : JChar => 48 ≤ c.val ∧ c.val ≤ 57) s
  inferInstanceAs (Decidable (_ ∧ _))

/-- Digits followed by digits are digits. -/
theorem IsDigits.append {m n : Nat} {s t : JString} (hs : IsDigits m s) (ht : IsDigits n t) :
    IsDigits (m + n) (s ++ t) := by
  refine ⟨by rw [List.length_append, hs.1, ht.1], fun c hc => ?_⟩
  rcases List.mem_append.mp hc with hc | hc
  · exact hs.2 c hc
  · exact ht.2 c hc

theorem ofDigits_cons {c : JChar} (hc : 48 ≤ c.val ∧ c.val ≤ 57) (s : JString) :
    ofDigits (c :: s) = 10 ^ s.length * (c.val - 48) + ofDigits s := by
  have hchar : (Char.ofNat c.val).toNat = c.val := by
    rw [Char.toNat_ofNat, if_pos (Or.inl (by omega))]
  rw [ofDigits, List.map_cons, Nat.ofDigitChars_cons, Nat.ofDigitChars_eq_ofDigitChars_zero,
    hchar, List.length_map, Nat.mul_zero, Nat.zero_add]
  rfl

/-- A number of `n` digits is below the `n`-th power of ten. -/
theorem ofDigits_lt {n : Nat} {s : JString} (hs : IsDigits n s) : ofDigits s < 10 ^ n := by
  induction s generalizing n with
  | nil =>
      rw [← hs.1]
      decide
  | cons c s ih =>
      have hc := hs.2 c List.mem_cons_self
      have hrest := ih ⟨rfl, fun d hd => hs.2 d (List.mem_cons_of_mem c hd)⟩
      have hdigit : 10 ^ s.length * (c.val - 48) ≤ 10 ^ s.length * 9 :=
        Nat.mul_le_mul_left _ (by omega)
      rw [← hs.1, List.length_cons, ofDigits_cons hc, Nat.pow_succ]
      omega

/-- Fronts of equal length decide the comparison unless they are equal. -/
theorem compareTo_append {p q : JString} (h : p.length = q.length) (s t : JString) :
    compareTo (p ++ s) (q ++ t) = if p = q then compareTo s t else compareTo p q := by
  induction p generalizing q with
  | nil =>
      rw [List.length_nil] at h
      rw [List.eq_nil_of_length_eq_zero h.symm, if_pos rfl]
      rfl
  | cons c p ih =>
      cases q with
      | nil => cases h
      | cons d q =>
          have hpq : p.length = q.length := by simpa using h
          by_cases hcd : c = d
          · subst hcd
            simp only [List.cons_append, compareTo, if_true, ih hpq, List.cons.injEq, true_and]
          · simp [compareTo, hcd]

/-- Different leading digits decide, whatever the others are. -/
theorem leading_lt_iff {weight a b x y : Nat} (hx : x < weight) (hy : y < weight) (hab : a ≠ b) :
    weight * a + x < weight * b + y ↔ a < b := by
  have hstep : ∀ {a b x y : Nat}, x < weight → a < b → weight * a + x < weight * b + y := by
    intro a b x y hx hlt
    calc weight * a + x < weight * a + weight := Nat.add_lt_add_left hx _
      _ = weight * (a + 1) := (Nat.mul_succ weight a).symm
      _ ≤ weight * b := Nat.mul_le_mul_left weight hlt
      _ ≤ weight * b + y := Nat.le_add_right _ _
  constructor
  · intro h
    by_contra hle
    have hback : weight * b + y < weight * a + x := hstep hy (by omega)
    omega
  · exact hstep hx

/-- On digit strings of one length `compareTo` is the order of the numbers. -/
theorem compareTo_neg_iff_ofDigits {n : Nat} {s t : JString} (hs : IsDigits n s)
    (ht : IsDigits n t) : compareTo s t < 0 ↔ ofDigits s < ofDigits t := by
  induction s generalizing n t with
  | nil =>
      obtain rfl : t = [] := List.eq_nil_of_length_eq_zero (ht.1.trans hs.1.symm)
      simp [compareTo]
  | cons c s ih =>
      cases t with
      | nil => exact absurd (hs.1.trans ht.1.symm) (by simp)
      | cons d t =>
          have hlength : s.length = t.length := by simpa using hs.1.trans ht.1.symm
          have hc := hs.2 c List.mem_cons_self
          have hd := ht.2 d List.mem_cons_self
          have hsRest : IsDigits s.length s :=
            ⟨rfl, fun e he => hs.2 e (List.mem_cons_of_mem c he)⟩
          have htRest : IsDigits s.length t :=
            ⟨hlength.symm, fun e he => ht.2 e (List.mem_cons_of_mem d he)⟩
          rw [ofDigits_cons hc, ofDigits_cons hd, ← hlength]
          by_cases hcd : c = d
          · subst hcd
            rw [compareTo, if_pos rfl, ih hsRest htRest, Nat.add_lt_add_iff_left]
          · have hval : c.val ≠ d.val := fun h => hcd (Fin.ext h)
            rw [compareTo, if_neg hcd,
              leading_lt_iff (ofDigits_lt hsRest) (ofDigits_lt htRest) (by omega)]
            omega

theorem sign_eq_of_iff {i : ℤ} {x : ℝ} (hneg : i < 0 ↔ x < 0) (hpos : 0 < i ↔ 0 < x) :
    SignType.sign i = SignType.sign x := by
  rw [sign_apply, sign_apply]
  simp only [hneg, hpos]

/-- **Digit strings.**  Comparing the texts is comparing the numbers. -/
theorem sign_compareTo_digits {n : Nat} {s t : JString} (hs : IsDigits n s) (ht : IsDigits n t) :
    SignType.sign (compareTo s t) = SignType.sign ((ofDigits s : ℝ) - ofDigits t) := by
  have hback : 0 < compareTo s t ↔ ofDigits t < ofDigits s := by
    rw [compareTo_pos_iff, ← compareTo_neg_iff, compareTo_neg_iff_ofDigits ht hs]
  apply sign_eq_of_iff
  · rw [compareTo_neg_iff_ofDigits hs ht, sub_neg, Nat.cast_lt]
  · rw [hback, sub_pos, Nat.cast_lt]

namespace Double

/-- `-0.0`. -/
def negativeZero : Double := ⟨true, 0, by decide⟩

/-- A finite double other than negative zero. -/
structure IsPrice (d : Double) : Prop where
  finite : d.isFinite
  not_negativeZero : d ≠ negativeZero

/-- Prices are ranked as their real numbers. -/
theorem IsPrice.rank_lt_iff {a b : Double} (ha : a.IsPrice) (hb : b.IsPrice) :
    a.rank < b.rank ↔ a.toReal < b.toReal := by
  have hmag : ∀ {d : Double}, d.IsPrice → d.neg = true → d.mag ≠ 0 := by
    intro d hd hneg hzero
    apply hd.not_negativeZero
    apply ext_rank
    rw [rank, hneg, hzero]
    rfl
  have hreal : a.toReal < b.toReal ↔ a.scaled < b.scaled := by
    rw [toReal, toReal, div_lt_div_iff_of_pos_right (by positivity), Int.cast_lt]
  have hma := hmag ha
  have hmb := hmag hb
  rw [hreal, scaled_lt_iff, rank, rank]
  cases hna : a.neg with
  | false =>
      cases hnb : b.neg with
      | false => simp
      | true =>
          have := hmb hnb
          simp only [if_true, if_false, Bool.false_eq_true]
          omega
  | true =>
      have := hma hna
      cases hnb : b.neg with
      | false =>
          simp only [if_true, if_false, Bool.false_eq_true]
          omega
      | true =>
          simp only [if_true]
          omega

/-- **Prices.**  `compareTo` is the comparison of the real numbers. -/
theorem sign_compareTo_toReal {a b : Double} (ha : a.IsPrice) (hb : b.IsPrice) :
    SignType.sign (a.compareTo b) = SignType.sign (a.toReal - b.toReal) := by
  apply sign_eq_of_iff
  · rw [compareTo_neg_iff, ha.rank_lt_iff hb, sub_neg]
  · rw [compareTo_pos_iff, hb.rank_lt_iff ha, sub_pos]

end Double

end Java
