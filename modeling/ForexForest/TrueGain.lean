import ForexForest.LeafPurity

/-!
# The information gain is a gain

Over exact real arithmetic the numbers that `buildDTree` compares are those of
information theory: the entropy of a list lies between 0 and the logarithm of
the number of classes, and the gain of a cut between 0 and the entropy of the
node, with the equality cases of both.

The order of the node's list does not matter: its entropy is computed before the
loops sort it, and the cuts are taken from the sorted list.
-/

namespace Forex

open Java Arith

/-- All candles are of one label class. -/
def OneClass (instances : List CandleStick) : Prop :=
  ∀ a ∈ instances, ∀ b ∈ instances, classOf a = classOf b

/-- The entropy is that of three classes, and zero for a single one only. -/
structure TrueEntropy (instances : List CandleStick) (entropy : ℝ) : Prop where
  nonneg : 0 ≤ entropy
  le_log : entropy ≤ Real.log 3
  eq_zero_iff : entropy = 0 ↔ OneClass instances

/-- The gain is a part of the node's entropy: nothing when both sides have the
same proportions of the classes, and all of it when each side has one class. -/
structure TrueGain (c : Cut) (entropy gain : ℝ) : Prop where
  nonneg : 0 ≤ gain
  le_entropy : gain ≤ entropy
  eq_zero_iff : gain = 0 ↔ Entropy.SameProportions classOf c.left c.right
  eq_entropy_iff : gain = entropy ↔ OneClass c.left ∧ OneClass c.right

/-- The entropy of the code is the true entropy of its classes. -/
theorem calcEntropy_true {instances : List CandleStick} (hne : instances ≠ []) :
    ∃ entropy : ℝ, (calcEntropy instances : Exact) = some entropy ∧
      TrueEntropy instances entropy := by
  have hcard : (Fintype.card LabelClass : ℝ) = 3 := by
    rw [show Fintype.card LabelClass = 3 from rfl]
    norm_num
  have hbound := Entropy.entropy_le_log_card classOf instances
  rw [hcard] at hbound
  exact ⟨_, calcEntropy_eq hne, Entropy.entropy_nonneg classOf instances, hbound,
    Entropy.entropy_eq_zero_iff classOf⟩

/-- The real gain of a cut with something on both sides. -/
theorem realGain_true {c : Cut} (hleft : c.left ≠ []) (hright : c.right ≠ []) :
    TrueGain c (Entropy.entropy classOf c.instances) c.realGain := by
  rw [← Cut.left_append_right]
  refine ⟨Entropy.gain_nonneg classOf hleft hright, Entropy.gain_le_entropy classOf _ _,
    Entropy.gain_eq_zero_iff classOf hleft hright, ?_⟩
  rw [Cut.realGain, Entropy.gain_eq_entropy_iff classOf hleft hright,
    Entropy.entropy_eq_zero_iff, Entropy.entropy_eq_zero_iff]
  rfl

/-- **Information gain is a true gain.**  `calcEntropy` computes a true entropy
of every list that is not empty.  For every node, every order of its instances
and every position inside it, the gain that the loops compute is a true gain. -/
theorem infoGain_true :
    (∀ instances : List CandleStick, instances ≠ [] → ∃ entropy : ℝ,
      (calcEntropy instances : Exact) = some entropy ∧ TrueEntropy instances entropy) ∧
    ∀ (instances : List CandleStick) (c : Cut), c.instances.Perm instances → 0 < c.idx →
      c.idx < c.instances.length → ∃ entropy gain : ℝ,
        (calcEntropy instances : Exact) = some entropy ∧
        c.gain calcEntropy (calcEntropy instances : Exact) = some gain ∧
        TrueGain c entropy gain := by
  refine ⟨fun _ => calcEntropy_true, fun instances c hperm hpos hlt => ?_⟩
  have hleft : c.left ≠ [] := by
    rw [← List.length_pos_iff, Cut.left_length hlt]
    exact hpos
  have hright : c.right ≠ [] := by
    rw [← List.length_pos_iff, Cut.right_length]
    omega
  have hne : instances ≠ [] := by
    rw [← List.length_pos_iff, ← hperm.length_eq]
    omega
  refine ⟨_, _, calcEntropy_eq hne, gain_eq_realGain hperm hleft hright, ?_⟩
  rw [← Entropy.entropy_perm classOf hperm]
  exact realGain_true hleft hright

/-- Between a falling and a rising candle the cut gains all of the entropy. -/
theorem infoGain_true_pair :
    ∃ entropy gain : ℝ, (calcEntropy [risingCandle, fallingCandle] : Exact) = some entropy ∧
      Cut.gain calcEntropy (calcEntropy [risingCandle, fallingCandle] : Exact)
        ⟨0, [fallingCandle, risingCandle], 1⟩ = some gain ∧ gain = entropy := by
  obtain ⟨entropy, gain, hentropy, hgain, htrue⟩ := infoGain_true.2
    [risingCandle, fallingCandle] ⟨0, [fallingCandle, risingCandle], 1⟩
    (List.Perm.swap _ _ _) Nat.one_pos (Nat.lt_succ_self 1)
  refine ⟨entropy, gain, hentropy, hgain, htrue.eq_entropy_iff.mpr ⟨?_, ?_⟩⟩
  · simp [OneClass, Cut.left]
  · simp [OneClass, Cut.right]

end Forex
