import ForexForest.Comparator

/-!
# Java doubles and their text

A double is its sign bit and the other 63 bits of its IEEE 754 word, read as
one number.  Magnitudes are ordered as these numbers are
(`units_strictMono`), so the numeric order of finite doubles is decided on the
words while `toReal` says which real number each of them is.

`<` is the numeric comparison: false on a NaN, and blind to the sign of zero.
`Double.compareTo` is the total order that puts `-0.0` below `0.0` and the NaN
on top; it is a `Comparator`, and it answers zero on equal doubles only.

Decimal text is a parameter: `Jdk` holds the four conversions of the platform
and `Jdk.Lawful` what their documentation promises.
-/

namespace Java

/-- The 63 magnitude bits of infinity. -/
def infinityBits : Nat := 0x7ff0000000000000

/-- The 63 magnitude bits of the canonical NaN. -/
def nanBits : Nat := 0x7ff8000000000000

/-- A double with its NaNs identified, as `doubleToLongBits` does. -/
structure Double where
  neg : Bool
  mag : Nat
  valid : mag ≤ infinityBits ∨ (neg = false ∧ mag = nanBits)
deriving DecidableEq

/-- A magnitude in units of the smallest positive double: below `2^52` the
number is subnormal, above it the exponent field scales the significand. -/
def units (mag : Nat) : Nat :=
  if mag < 2 ^ 52 then mag else (2 ^ 52 + mag % 2 ^ 52) * 2 ^ (mag / 2 ^ 52 - 1)

/-- The next magnitude is the next double: within the subnormal numbers, at their
edge, within a binade, and at its carry. -/
private theorem units_lt_succ (m : Nat) : units m < units (m + 1) := by
  unfold units
  by_cases hsub : m < 2 ^ 52
  · rw [if_pos hsub]
    by_cases hedge : m + 1 < 2 ^ 52
    · rw [if_pos hedge]
      exact Nat.lt_succ_self m
    · obtain rfl : m = 2 ^ 52 - 1 := by omega
      norm_num
  · have hq : 1 ≤ m / 2 ^ 52 := Nat.div_pos (by omega) (by positivity)
    rw [if_neg hsub, if_neg (by omega : ¬ m + 1 < 2 ^ 52)]
    by_cases hcarry : m % 2 ^ 52 + 1 < 2 ^ 52
    · have hdiv : (m + 1) / 2 ^ 52 = m / 2 ^ 52 := by omega
      have hmod : (m + 1) % 2 ^ 52 = m % 2 ^ 52 + 1 := by omega
      rw [hdiv, hmod]
      exact Nat.mul_lt_mul_of_pos_right (by omega) (by positivity)
    · have hdiv : (m + 1) / 2 ^ 52 - 1 = (m / 2 ^ 52 - 1) + 1 := by omega
      have hmod : (m + 1) % 2 ^ 52 = 0 := by omega
      have hlt := Nat.mod_lt m (show 0 < 2 ^ 52 by positivity)
      rw [hdiv, hmod]
      calc (2 ^ 52 + m % 2 ^ 52) * 2 ^ (m / 2 ^ 52 - 1)
          < (2 ^ 52 * 2) * 2 ^ (m / 2 ^ 52 - 1) :=
            Nat.mul_lt_mul_of_pos_right (by omega) (by positivity)
        _ = (2 ^ 52 + 0) * 2 ^ (m / 2 ^ 52 - 1 + 1) := by ring

/-- Magnitudes are ordered as their bits. -/
theorem units_strictMono : StrictMono units :=
  strictMono_nat_of_lt_succ units_lt_succ

namespace Double

/-- `Double.isNaN`. -/
def isNaN (d : Double) : Bool := decide (d.mag = nanBits)

/-- Neither infinite nor a NaN. -/
def isFinite (d : Double) : Bool := decide (d.mag < infinityBits)

/-- The signed value in units of the smallest positive double. -/
def scaled (d : Double) : Int :=
  if d.neg then -(units d.mag : Int) else units d.mag

/-- The real number that a finite double is. -/
noncomputable def toReal (d : Double) : ℝ := (d.scaled : ℝ) / 2 ^ 1074

/-- `a < b` on primitive doubles. -/
def lt (a b : Double) : Bool :=
  !a.isNaN && !b.isNaN && decide (a.scaled < b.scaled)

/-- `doubleToLongBits`, as the signed 64-bit number it returns. -/
def longBits (d : Double) : Int :=
  if d.neg then (d.mag : Int) - 2 ^ 63 else d.mag

/-- `Double.compareTo`. -/
def compareTo (a b : Double) : Int :=
  if a.lt b then -1
  else if b.lt a then 1
  else if a.longBits = b.longBits then 0
  else if a.longBits < b.longBits then -1
  else 1

/-- `0.0`. -/
def zero : Double := ⟨false, 0, by decide⟩

/-- `Double.MIN_VALUE`, the smallest positive double. -/
def MIN_VALUE : Double := ⟨false, 1, by decide⟩

/-- `Double.MAX_VALUE`, the largest finite double. -/
def MAX_VALUE : Double := ⟨false, infinityBits - 1, by decide⟩

/-- The position of a double in the total order of `compareTo`. -/
def rank (d : Double) : Int :=
  if d.neg then -(d.mag : Int) - 1 else d.mag

/-- A double is known by its position in the total order; the two zeros have two. -/
theorem ext_rank {a b : Double} (h : a.rank = b.rank) : a = b := by
  obtain ⟨na, ma, va⟩ := a
  obtain ⟨nb, mb, vb⟩ := b
  unfold rank at h
  cases na <;> cases nb <;> simp at h ⊢ <;> omega

/-- A finite double is a number. -/
theorem not_isNaN_of_isFinite {d : Double} (h : d.isFinite) : d.isNaN = false := by
  have hmag : d.mag < infinityBits := of_decide_eq_true h
  exact decide_eq_false (by unfold nanBits; unfold infinityBits at hmag; omega)

/-- Values are ordered as signed magnitudes. -/
theorem scaled_lt_iff {a b : Double} :
    a.scaled < b.scaled ↔
      (if a.neg then -(a.mag : Int) else a.mag) < (if b.neg then -(b.mag : Int) else b.mag) := by
  have hab := units_strictMono.lt_iff_lt (a := a.mag) (b := b.mag)
  have hba := units_strictMono.lt_iff_lt (a := b.mag) (b := a.mag)
  have hza := units_strictMono.lt_iff_lt (a := 0) (b := a.mag)
  have hzb := units_strictMono.lt_iff_lt (a := 0) (b := b.mag)
  have hzero : units 0 = 0 := rfl
  unfold scaled
  cases a.neg <;> cases b.neg <;> simp <;> omega

/-- `compareTo` compares ranks. -/
theorem compareTo_eq (a b : Double) :
    a.compareTo b = if a.rank < b.rank then -1 else if b.rank < a.rank then 1 else 0 := by
  have hab := scaled_lt_iff (a := a) (b := b)
  have hba := scaled_lt_iff (a := b) (b := a)
  obtain ⟨na, ma, va⟩ := a
  obtain ⟨nb, mb, vb⟩ := b
  simp only [compareTo, lt, rank, longBits, isNaN, hab, hba, Bool.and_eq_true,
    Bool.not_eq_true', decide_eq_true_eq, decide_eq_false_iff_not]
  clear hab hba
  unfold infinityBits nanBits at *
  cases na <;> cases nb <;> simp only [Bool.false_eq_true, if_true, if_false, false_and,
    or_false, true_and, reduceCtorEq] at * <;> grind

/-- A negative answer says that the first rank is the lower one. -/
theorem compareTo_neg_iff {a b : Double} : a.compareTo b < 0 ↔ a.rank < b.rank := by
  rw [compareTo_eq]; split <;> [simp_all; split <;> simp_all]

/-- A positive answer says that the first rank is the higher one. -/
theorem compareTo_pos_iff {a b : Double} : 0 < a.compareTo b ↔ b.rank < a.rank := by
  rw [compareTo_eq]; grind

/-- `compareTo` answers zero on equal doubles only. -/
theorem compareTo_eq_zero_iff {a b : Double} : a.compareTo b = 0 ↔ a = b := by
  constructor
  · intro h
    apply ext_rank
    rw [compareTo_eq] at h
    grind
  · rintro rfl
    simp [compareTo_eq]

/-- `Double.compareTo` as a comparator. -/
def comparator : Comparator Double where
  compare := compareTo
  swap _ _ := by rw [compareTo_neg_iff, compareTo_pos_iff]
  trans a b c hab hbc := by
    rw [← not_lt, compareTo_pos_iff, not_lt] at *
    exact le_trans hab hbc

/-- On finite doubles `<` is the order of the real numbers. -/
theorem lt_iff_toReal {a b : Double} (ha : a.isFinite) (hb : b.isFinite) :
    a.lt b ↔ a.toReal < b.toReal := by
  rw [lt, not_isNaN_of_isFinite ha, not_isNaN_of_isFinite hb, toReal, toReal,
    div_lt_div_iff_of_pos_right (by positivity)]
  simp

/-- A positive number has no sign bit. -/
theorem neg_eq_false_of_pos {d : Double} (h : 0 < d.toReal) : d.neg = false := by
  cases hneg : d.neg with
  | false => rfl
  | true =>
      have hle : d.toReal ≤ 0 := by
        rw [toReal, scaled, if_pos hneg]
        exact div_nonpos_of_nonpos_of_nonneg (by simp) (by positivity)
      exact absurd h (not_lt.mpr hle)

/-- Positive doubles are the real numbers that they are. -/
theorem ext_of_pos {a b : Double} (ha : 0 < a.toReal) (h : a.toReal = b.toReal) : a = b := by
  have hna := neg_eq_false_of_pos ha
  have hnb := neg_eq_false_of_pos (h ▸ ha)
  apply ext_rank
  have hscaled : a.scaled = b.scaled := by
    rw [toReal, toReal, div_left_inj' (by positivity)] at h
    exact_mod_cast h
  simp only [scaled, hna, hnb, Bool.false_eq_true, if_false, Int.natCast_inj] at hscaled
  simp only [rank, hna, hnb, Bool.false_eq_true, if_false, units_strictMono.injective hscaled]

end Double

end Java
