import ForexForest.Evaluation

/-!
# Rounded quotients of counters

The accuracies of the programs are quotients of counters, rounded to a double.
`ofQuotient_error` bounds the rounding: a quotient of at most one is missed by at most
`2 ^ -53`.  Different quotients of small counters are further apart than that, so that
the double tells the quotient (`ofFraction_quotient_inj`).
-/

namespace Java

/-- An accuracy as the double that holds it; without instances it is `0.0/0.0`. -/
def Double.ofFraction : Option ℚ → Double
  | none => Double.ofQuotient 0 0
  | some q => Double.ofQuotient q.num.toNat q.den

/-- A quotient of counters does not depend on common factors. -/
theorem Double.ofQuotient_mul_left {k : Nat} (hk : 0 < k) (m n : Nat) :
    Double.ofQuotient (k * m) (k * n) = Double.ofQuotient m n := by
  unfold Double.ofQuotient
  by_cases hn : n = 0
  · simp [hn, hk.ne']
  have hunits : k * m * 2 ^ 1074 = k * (m * 2 ^ 1074) := Nat.mul_assoc _ _ _
  have hdivisor (exponent : Nat) : k * n * 2 ^ exponent = k * (n * 2 ^ exponent) :=
    Nat.mul_assoc _ _ _
  have hdiv (a b : Nat) : k * a / (k * b) = a / b := Nat.mul_div_mul_left a b hk
  have hmod (a b : Nat) : k * a % (k * b) = k * (a % b) := Nat.mul_mod_mul_left k a b
  have hlt (a b : Nat) : k * a < 2 * (k * b) ↔ a < 2 * b := by
    rw [Nat.mul_left_comm 2 k b, Nat.mul_lt_mul_left hk]
  have heq (a b : Nat) : k * a = 2 * (k * b) ↔ a = 2 * b := by
    rw [Nat.mul_left_comm 2 k b, Nat.mul_right_inj hk.ne']
  rw [if_neg (Nat.mul_ne_zero hk.ne' hn), if_neg hn]
  simp only [hunits, hdivisor, hdiv, hmod, hlt, heq]

/-- The magnitude whose significand `t` is scaled by `2 ^ exponent`. -/
theorem units_scaled {exponent t : Nat} (ht : t ≤ 2 ^ 53) (hnormal : exponent = 0 ∨ 2 ^ 52 ≤ t) :
    units (exponent * 2 ^ 52 + t) = t * 2 ^ exponent := by
  unfold units
  rcases Nat.lt_or_ge t (2 ^ 52) with hsub | hnorm
  · obtain rfl : exponent = 0 := hnormal.resolve_right (not_le.mpr hsub)
    rw [Nat.zero_mul, Nat.zero_add, if_pos hsub, pow_zero, Nat.mul_one]
  rw [if_neg (by omega)]
  rcases ht.lt_or_eq with hlt | rfl
  · have hdiv : (exponent * 2 ^ 52 + t) / 2 ^ 52 = exponent + 1 := by omega
    have hmod : (exponent * 2 ^ 52 + t) % 2 ^ 52 = t - 2 ^ 52 := by omega
    rw [hdiv, hmod, Nat.add_sub_cancel' hnorm, Nat.add_sub_cancel]
  · -- rounding up has carried into the exponent
    have hdiv : (exponent * 2 ^ 52 + 2 ^ 53) / 2 ^ 52 = exponent + 2 := by omega
    have hmod : (exponent * 2 ^ 52 + 2 ^ 53) % 2 ^ 52 = 0 := by omega
    rw [hdiv, hmod, show exponent + 2 - 1 = exponent + 1 by omega]
    ring

/-- The exponent leaves 53 bits, or fewer only if nothing is left out. -/
theorem significand_range (U : Nat) :
    U / 2 ^ (U.log2 - 52) < 2 ^ 53 ∧ (U.log2 - 52 = 0 ∨ 2 ^ 52 ≤ U / 2 ^ (U.log2 - 52)) := by
  constructor
  · rw [Nat.div_lt_iff_lt_mul (by positivity)]
    calc U < 2 ^ (U.log2 + 1) := Nat.lt_log2_self
      _ ≤ 2 ^ (53 + (U.log2 - 52)) := Nat.pow_le_pow_right (by omega) (by omega)
      _ = 2 ^ 53 * 2 ^ (U.log2 - 52) := pow_add _ _ _
  · by_cases hzero : U.log2 - 52 = 0
    · exact Or.inl hzero
    right
    have hne : U ≠ 0 := by
      intro hU
      exact hzero (by simp [hU])
    rw [Nat.le_div_iff_mul_le (by positivity), ← pow_add]
    calc 2 ^ (52 + (U.log2 - 52)) = 2 ^ U.log2 := by congr 1; omega
      _ ≤ U := Nat.log2_self_le hne

/-- A number up to a power of two has at most its exponent as logarithm. -/
theorem log2_le {U k : Nat} (h : U ≤ 2 ^ k) : U.log2 ≤ k := by
  by_cases hzero : U = 0
  · rw [hzero, Nat.log2_zero]
    exact Nat.zero_le k
  · exact (Nat.pow_le_pow_iff_right Nat.one_lt_two).mp ((Nat.log2_self_le hzero).trans h)

/-- Rounding to the nearest integer misses by half of the divisor. -/
theorem nearest_error (V divisor : Nat) (roundsUp : Prop) [Decidable roundsUp]
    (hup : roundsUp → divisor ≤ 2 * (V % divisor))
    (hdown : ¬ roundsUp → 2 * (V % divisor) ≤ divisor) (hpos : 0 < divisor) :
    2 * V ≤ 2 * (divisor * (V / divisor + if roundsUp then 1 else 0)) + divisor ∧
      2 * (divisor * (V / divisor + if roundsUp then 1 else 0)) ≤ 2 * V + divisor := by
  have hV := Nat.div_add_mod V divisor
  have hrest := Nat.mod_lt V hpos
  rw [Nat.mul_add]
  split_ifs with h
  · have := hup h
    omega
  · have := hdown h
    omega

/-- An exponent at most one higher at most doubles the product. -/
theorem mul_pow_le (n : Nat) {exponent k : Nat} (h : exponent ≤ k + 1) :
    n * 2 ^ exponent ≤ 2 * (n * 2 ^ k) :=
  calc n * 2 ^ exponent ≤ n * 2 ^ (k + 1) :=
        Nat.mul_le_mul_left n (Nat.pow_le_pow_right Nat.two_pos h)
    _ = 2 * (n * 2 ^ k) := by ring

/-- The rounded quotient, multiplied back, misses by half a unit of its last place. -/
theorem Double.ofQuotient_error {m n : Nat} (hmn : m ≤ n) (hn : 0 < n) :
    m * 2 ^ 1074 ≤ n * units (Double.ofQuotient m n).mag + n * 2 ^ 1021 ∧
      n * units (Double.ofQuotient m n).mag ≤ m * 2 ^ 1074 + n * 2 ^ 1021 := by
  rw [Double.ofQuotient, if_neg hn.ne']
  simp only
  obtain ⟨hless, hnormal⟩ := significand_range (m * 2 ^ 1074 / n)
  have hexponent : (m * 2 ^ 1074 / n).log2 - 52 ≤ 1021 + 1 := by
    have hlog := log2_le (Nat.div_le_of_le_mul (Nat.mul_le_mul_right (2 ^ 1074) hmn))
    omega
  rw [Nat.div_div_eq_div_mul] at hless hnormal
  generalize (m * 2 ^ 1074 / n).log2 - 52 = exponent at hless hnormal hexponent ⊢
  generalize m * 2 ^ 1074 = V at hless hnormal ⊢
  have herror := nearest_error V (n * 2 ^ exponent)
    (n * 2 ^ exponent < 2 * (V % (n * 2 ^ exponent)) ∨
      n * 2 ^ exponent = 2 * (V % (n * 2 ^ exponent)) ∧ V / (n * 2 ^ exponent) % 2 = 1)
    (by omega) (by omega) (by positivity)
  have hdivisor : n * 2 ^ exponent ≤ 2 * (n * 2 ^ 1021) := mul_pow_le n hexponent
  generalize hs : V / (n * 2 ^ exponent) = significand at hless hnormal herror ⊢
  generalize hup : (if n * 2 ^ exponent < 2 * (V % (n * 2 ^ exponent)) ∨
    n * 2 ^ exponent = 2 * (V % (n * 2 ^ exponent)) ∧ significand % 2 = 1 then 1 else 0) = up
    at herror ⊢
  have hone : up ≤ 1 := by
    rw [← hup]
    split_ifs <;> omega
  have hfinite : exponent * 2 ^ 52 + significand + up ≤ infinityBits := by
    rw [infinityBits]
    omega
  have hunits : units (exponent * 2 ^ 52 + (significand + up)) =
      (significand + up) * 2 ^ exponent := units_scaled (by omega) (by omega)
  rw [min_eq_left hfinite, Nat.add_assoc, hunits,
    show n * ((significand + up) * 2 ^ exponent) = n * 2 ^ exponent * (significand + up) by ring]
  generalize n * 2 ^ exponent * (significand + up) = product at herror ⊢
  omega

/-- With a divisor the quotient is a number. -/
theorem Double.ofQuotient_mag_le {n : Nat} (hn : n ≠ 0) (m : Nat) :
    (Double.ofQuotient m n).mag ≤ infinityBits := by
  rw [Double.ofQuotient, if_neg hn]
  exact min_le_right _ _

/-- Of two quotients with the same double neither is much greater. -/
theorem Double.cross_le {m n m' n' : Nat} (hmn : m ≤ n) (hmn' : m' ≤ n') (hn : 0 < n)
    (hn' : 0 < n') (hsmall : n * n' < 2 ^ 52)
    (h : Double.ofQuotient m n = Double.ofQuotient m' n') : m' * n ≤ m * n' := by
  obtain ⟨-, hupper⟩ := Double.ofQuotient_error hmn hn
  obtain ⟨hlower, -⟩ := Double.ofQuotient_error hmn' hn'
  rw [h] at hupper
  generalize units (Double.ofQuotient m' n').mag = X at hupper hlower
  have hpos : 0 < 2 ^ 1021 := by positivity
  rw [show 1074 = 53 + 1021 from rfl, pow_add] at hupper hlower
  generalize 2 ^ 1021 = P at hupper hlower hpos
  by_contra hlt
  have hgap : m * n' + 1 ≤ m' * n := Nat.lt_of_not_le hlt
  have hchain : 2 ^ 53 * P * (m * n' + 1) ≤ 2 ^ 53 * P * (m * n') + 2 * (n * n') * P :=
    calc 2 ^ 53 * P * (m * n' + 1) ≤ 2 ^ 53 * P * (m' * n) := Nat.mul_le_mul_left _ hgap
      _ = n * (m' * (2 ^ 53 * P)) := by ring
      _ ≤ n * (n' * X + n' * P) := Nat.mul_le_mul_left n hlower
      _ = n' * (n * X) + n * n' * P := by ring
      _ ≤ n' * (m * (2 ^ 53 * P) + n * P) + n * n' * P :=
          Nat.add_le_add_right (Nat.mul_le_mul_left n' hupper) _
      _ = 2 ^ 53 * P * (m * n') + 2 * (n * n') * P := by ring
  have hless : 2 * (n * n') * P < 2 ^ 53 * P := Nat.mul_lt_mul_of_pos_right (by omega) hpos
  rw [Nat.mul_add, Nat.mul_one] at hchain
  omega

end Java

namespace Forex

open Java

/-- The double of a fraction of counters is their quotient. -/
theorem ofFraction_quotient {m n : Nat} (hmn : m ≤ n) :
    Double.ofFraction (quotient m n) = Double.ofQuotient m n := by
  by_cases hn : n = 0
  · obtain rfl : m = 0 := by omega
    rw [hn]
    rfl
  have hpos : (n : Int) ≠ 0 := by exact_mod_cast hn
  obtain ⟨c, hnum, hden⟩ := Rat.exists_eq_mul_div_num_and_eq_mul_div_den (m : Int) hpos
  rw [quotient, if_neg hn, Double.ofFraction]
  simp only [Int.cast_natCast] at hnum hden
  have hq : (0 : ℚ) ≤ m / n := by positivity
  generalize (m / n : ℚ) = q at hq hnum hden ⊢
  -- the common factor is positive, as the counters are not negative
  have hc : 0 < c := by
    have hdenPos : (0 : Int) < q.den := by exact_mod_cast q.den_pos
    have hnPos : (0 : Int) < n := by omega
    rw [hden] at hnPos
    exact pos_of_mul_pos_left hnPos hdenPos.le
  obtain ⟨k, rfl⟩ := Int.eq_ofNat_of_zero_le hc.le
  obtain ⟨a, ha⟩ := Int.eq_ofNat_of_zero_le (Rat.num_nonneg.mpr hq)
  have hm : m = k * a := by
    rw [ha] at hnum
    exact_mod_cast hnum
  have hn' : n = k * q.den := by exact_mod_cast hden
  rw [ha, Int.toNat_natCast, hm, hn', Double.ofQuotient_mul_left (by exact_mod_cast hc)]

/-- **The double tells the quotient** of small counters, and whether there is one. -/
theorem ofFraction_quotient_inj {m n m' n' : Nat} (hmn : m ≤ n) (hmn' : m' ≤ n')
    (hn : n < 2 ^ 26) (hn' : n' < 2 ^ 26)
    (h : Double.ofFraction (quotient m n) = Double.ofFraction (quotient m' n')) :
    quotient m n = quotient m' n' := by
  rw [ofFraction_quotient hmn, ofFraction_quotient hmn'] at h
  -- a quotient of nothing is not a number
  have hnan : ∀ {a b : Nat}, b ≠ 0 → Double.ofQuotient a b ≠ Double.ofQuotient 0 0 := by
    intro a b hb heq
    have hle := Double.ofQuotient_mag_le hb a
    rw [heq] at hle
    exact absurd hle (by decide)
  by_cases hzero : n = 0
  · obtain rfl : m = 0 := by omega
    rw [hzero] at h ⊢
    by_cases hzero' : n' = 0
    · obtain rfl : m' = 0 := by omega
      rw [hzero']
    · exact absurd h.symm (hnan hzero')
  by_cases hzero' : n' = 0
  · obtain rfl : m' = 0 := by omega
    rw [hzero'] at h
    exact absurd h (hnan hzero)
  have hsmall : n * n' < 2 ^ 52 :=
    calc n * n' < 2 ^ 26 * 2 ^ 26 := Nat.mul_lt_mul_of_lt_of_lt hn hn'
      _ = 2 ^ 52 := by norm_num
  have hcross : m' * n = m * n' := by
    apply le_antisymm
    · exact Double.cross_le hmn hmn' (by omega) (by omega) hsmall h
    · exact Double.cross_le hmn' hmn (by omega) (by omega) (by rwa [Nat.mul_comm]) h.symm
  have hpos : (n : ℚ) ≠ 0 := by exact_mod_cast hzero
  have hpos' : (n' : ℚ) ≠ 0 := by exact_mod_cast hzero'
  rw [quotient, quotient, if_neg hzero, if_neg hzero', Option.some_inj, div_eq_div_iff hpos hpos']
  exact_mod_cast hcross.symm

end Forex
