import ForexForest.ForestTraining
import ForexForest.LeafPurity

/-!
# The features of the trees of a forest

A tree keeps the list of its features, and `buildForest` hands it a view of the
static list: later rounds shuffle that list, and the view of every earlier tree
shows what stands in front of it now.

A grown tree tests only features that it was grown with
(`Grown.testedFeatures_subset`).  What the view of the `i`-th tree shows at the
end depends on all the rounds after it; asking it of all trees at once makes it
a condition on single rounds (`related_to_last_iff`).
-/

namespace Forex

open Java Arith

namespace DTNode

variable {D : Type}

/-- The features that the inner nodes test. -/
def testedFeatures : DTNode D → List Int
  | .null => []
  | .node _ _ .null .null _ _ => []
  | .node _ _ left right testCond _ => testCond :: (left.testedFeatures ++ right.testedFeatures)

theorem testedFeatures_inner {instances : List CandleStick} {entropy : D} {left right : DTNode D}
    {testCond : Int} {threshold : Option CandleStick} (hleft : left ≠ .null) :
    (DTNode.node instances entropy left right testCond threshold).testedFeatures =
      testCond :: (left.testedFeatures ++ right.testedFeatures) := by
  cases left with
  | null => exact absurd rfl hleft
  | node => rfl

/-- A tree that tests nothing is a single leaf. -/
theorem WellSplit.leaves_of_testedFeatures {t : DTNode D} (h : WellSplit t)
    (hnone : t.testedFeatures = []) : t.leaves = [t.instances] := by
  cases h with
  | leaf => rfl
  | inner _ _ _ hleft _ =>
      rw [testedFeatures_inner hleft.ne_null] at hnone
      exact absurd hnone (List.cons_ne_nil _ _)

end DTNode

/-- A grown tree tests only features that it was grown with. -/
theorem Grown.testedFeatures_subset {D : Type} [Arith D] {entropyOf : List CandleStick → D}
    {stopsAtOne : Bool} {featureIdx : List Int} {instances : List CandleStick} {t : DTNode D}
    (h : Grown entropyOf stopsAtOne featureIdx instances t) :
    ∀ i ∈ t.testedFeatures, i ∈ featureIdx := by
  induction h with
  | pure => exact fun _ hi => absurd hi List.not_mem_nil
  | exhausted => exact fun _ hi => absurd hi List.not_mem_nil
  | split _ hc _ _ hleft _ ihleft ihright =>
      intro i hi
      rw [DTNode.testedFeatures_inner hleft.wellSplit.ne_null, List.mem_cons,
        List.mem_append] at hi
      rcases hi with rfl | hi | hi
      · exact (mem_cuts hc).1
      · exact ihleft i hi
      · exact ihright i hi

/-- A list of both classes makes a tree that tests something. -/
theorem exists_tested (stopsAtOne : Bool) {featureIdx : List Int} {instances : List CandleStick}
    (hlen : instances.length ≤ maxListLength) (hfeatures : featureIdx ≠ [])
    (hrange : ∀ i ∈ featureIdx, IsFeature i) {a b : CandleStick} (ha : a ∈ instances)
    (hb : b ∈ instances) (hab : classOf a ≠ classOf b) :
    ∃ i, i ∈ (growTree (calcEntropy : List CandleStick → Exact) stopsAtOne featureIdx
      instances).testedFeatures := by
  have hgrown := grown_growTree (calcEntropy : List CandleStick → Exact) stopsAtOne featureIdx
    instances
  apply List.exists_mem_of_ne_nil
  intro hnone
  have hleaves := hgrown.wellSplit.leaves_of_testedFeatures hnone
  obtain ⟨-, huniform⟩ := hgrown.leaves_uniform (List.ne_nil_of_mem ha) hlen hfeatures hrange _
    (by rw [hleaves]; exact List.mem_singleton_self _)
  exact hab (huniform a (hgrown.instances_perm.mem_iff.mpr ha) b
    (hgrown.instances_perm.mem_iff.mpr hb))

/-- In a run, every state is related to the last one exactly when every step is. -/
theorem related_to_last_iff {α : Type} {r : α → α → Prop} (hr : Equivalence r) (state : Nat → α)
    (n : Nat) :
    (∀ i < n, r (state n) (state (i + 1))) ↔
      ∀ i, 0 < i → i < n → r (state (i + 1)) (state i) := by
  induction n with
  | zero => simp
  | succ n ih =>
      constructor
      · intro h
        have hlast : ∀ i ≤ n, r (state (n + 1)) (state (i + 1)) := fun i hi => h i (by omega)
        intro i hpos hi
        obtain ⟨j, rfl⟩ : ∃ j, i = j + 1 := ⟨i - 1, by omega⟩
        exact hr.trans (hr.symm (hlast (j + 1) (by omega))) (hlast j (by omega))
      · intro h i hi
        rcases Nat.lt_or_eq_of_le (Nat.lt_succ_iff.mp hi) with hlt | rfl
        · have hrest := ih.mpr (fun j hpos hj => h j hpos (by omega)) i hlt
          exact hr.trans (h n (by omega) (by omega)) hrest
        · exact hr.refl _

namespace RandomForest

variable {D : Type} [Arith D] {shuffle shuffleFeatures : Nat → Shuffle}

/-- A forest that `buildForest` returns is that of all rounds. -/
theorem eq_of_buildForest {N : Int32} {instances : ArrayList CandleStick}
    {forest : ForestState CandleStick D}
    (h : buildForest shuffle shuffleFeatures N instances = .ok forest) :
    forest.totalFeatures = afterShuffles shuffleFeatures [0, 1, 2, 3] N.toInt.toNat ∧
      forest.trees = (List.range N.toInt.toNat).map
        (treeOf shuffle shuffleFeatures instances.elements) := by
  by_cases hsize : instances.elements.length = 1 ∨ 2 ^ 30 ≤ instances.elements.length
  · have hN : N.toInt.toNat = 0 := by
      by_contra hpos
      exact buildForest_fails shuffle shuffleFeatures (by omega) hsize forest h
    rw [buildForest, hN] at h
    rw [hN, ← Except.ok.inj h]
    exact ⟨rfl, rfl⟩
  · rw [buildForest_eq shuffle shuffleFeatures N (by omega) (by omega)] at h
    rw [← Except.ok.inj h]
    exact ⟨rfl, rfl⟩

/-- What a tree keeps when its list of features, which read `grownWith` while it
was grown, reads `now`: the two features are the same, and its nodes test no
others. -/
structure KeepsFeatures (grownWith now : List Int) (root : DTNode D) : Prop where
  same : now.Perm grownWith
  two : now.length = 2
  distinct : now.Nodup
  tested : ∀ i ∈ root.testedFeatures, i ∈ now

/-- Every tree of the forest still has the features of its round. -/
def TreesKeepFeatures (shuffleFeatures : Nat → Shuffle) (forest : ForestState CandleStick D) :
    Prop :=
  ∀ i dt, forest.trees[i]? = some dt →
    KeepsFeatures (featuresOf shuffleFeatures i) (dt.featureIdx.read forest.totalFeatures) dt.root

theorem features_nodup (shuffleFeatures : Nat → Shuffle) (i : Nat) :
    (afterShuffles shuffleFeatures ([0, 1, 2, 3] : List Int) i).Nodup :=
  (afterShuffles_perm shuffleFeatures _ i).nodup_iff.mpr (by decide)

/-- A tree keeps its features when the view still shows the same two. -/
theorem keepsFeatures_iff (instances : List CandleStick) (i n : Nat) :
    KeepsFeatures (featuresOf shuffleFeatures i)
        ((afterShuffles shuffleFeatures [0, 1, 2, 3] n).take 2)
        (treeOf (D := D) shuffle shuffleFeatures instances i).root ↔
      ((afterShuffles shuffleFeatures [0, 1, 2, 3] n).take 2).Perm
        (featuresOf shuffleFeatures i) := by
  constructor
  · intro h
    exact h.same
  · intro hsame
    have hgrown := grown_growTree (calcEntropy : List CandleStick → D) false
      (featuresOf shuffleFeatures i) (trainPart shuffle instances i)
    refine ⟨hsame, ?_, (features_nodup _ n).sublist (List.take_sublist 2 _), fun f hf => ?_⟩
    · rw [List.length_take, length_afterShuffles]
      rfl
    · exact hsame.mem_iff.mpr (hgrown.testedFeatures_subset f hf)

/-- The trees of a finished forest are those of its rounds. -/
theorem getElem?_trees_iff {N : Int32} {instances : ArrayList CandleStick}
    {forest : ForestState CandleStick D}
    (hforest : buildForest shuffle shuffleFeatures N instances = .ok forest) (i : Nat)
    (dt : Forest.DecisionTree D) :
    forest.trees[i]? = some dt ↔
      i < N.toInt.toNat ∧ treeOf shuffle shuffleFeatures instances.elements i = dt := by
  rw [(eq_of_buildForest hforest).2, List.getElem?_map]
  by_cases hi : i < N.toInt.toNat
  · rw [List.getElem?_range hi, Option.map_some, Option.some_inj]
    exact (and_iff_right hi).symm
  · rw [List.getElem?_eq_none (by rw [List.length_range]; omega), Option.map_none]
    exact ⟨fun h => absurd h (by simp), fun h => absurd h.1 hi⟩

/-- A round leaves the two features in front exactly when it only permutes them. -/
theorem featuresOf_perm_iff (i : Nat) :
    (featuresOf shuffleFeatures i).Perm
        ((afterShuffles shuffleFeatures [0, 1, 2, 3] i).take 2) ↔
      (shuffleFeatures i).KeepsFront 4 2 := by
  have h := (shuffleFeatures i).take_apply_perm_iff (features_nodup shuffleFeatures i) 2
  rw [length_afterShuffles] at h
  exact h

/-- **Every tree keeps its features.**  In a forest that `buildForest` returns,
every tree still has the two features that it was grown with, and tests no
others, exactly when each round after the first permutes the two features in
front. -/
theorem treesKeepFeatures_iff {N : Int32} {instances : ArrayList CandleStick}
    {forest : ForestState CandleStick D}
    (hforest : buildForest shuffle shuffleFeatures N instances = .ok forest) :
    TreesKeepFeatures shuffleFeatures forest ↔
      ∀ i, 0 < i → i < N.toInt.toNat → (shuffleFeatures i).KeepsFront 4 2 := by
  have hfeatures := (eq_of_buildForest hforest).1
  have hequiv : Equivalence fun l l' : List Int => (l.take 2).Perm (l'.take 2) :=
    ⟨fun l => .refl _, fun h => h.symm, fun h h' => h.trans h'⟩
  calc TreesKeepFeatures shuffleFeatures forest
      ↔ ∀ i < N.toInt.toNat,
          ((afterShuffles shuffleFeatures [0, 1, 2, 3] N.toInt.toNat).take 2).Perm
            (featuresOf shuffleFeatures i) := by
        constructor
        · intro h i hi
          have hkeeps := h i _ ((getElem?_trees_iff hforest i _).mpr ⟨hi, rfl⟩)
          rw [hfeatures] at hkeeps
          exact hkeeps.same
        · intro h i dt hdt
          obtain ⟨hi, rfl⟩ := (getElem?_trees_iff hforest i dt).mp hdt
          rw [hfeatures]
          exact (keepsFeatures_iff instances.elements i _).mpr (h i hi)
    _ ↔ ∀ i, 0 < i → i < N.toInt.toNat →
          (featuresOf shuffleFeatures i).Perm
            ((afterShuffles shuffleFeatures [0, 1, 2, 3] i).take 2) :=
        related_to_last_iff hequiv _ _
    _ ↔ ∀ i, 0 < i → i < N.toInt.toNat → (shuffleFeatures i).KeepsFront 4 2 :=
        forall₃_congr fun i _ _ => featuresOf_perm_iff i

/-- With a shuffle that moves nothing both trees keep their features. -/
theorem treesKeepFeatures_still :
    ∃ forest : ForestState CandleStick Exact,
      buildForest (fun _ _ => 1) (fun _ _ => 1) 2
        ⟨[fallingCandle, risingCandle, risingCandle], by decide⟩ = .ok forest ∧
      TreesKeepFeatures (fun _ _ => 1) forest := by
  refine ⟨_, buildForest_eq _ _ 2 (by decide) (by decide), ?_⟩
  exact (treesKeepFeatures_iff (buildForest_eq _ _ 2 (by decide) (by decide))).mpr
    fun _ _ _ _ hfront => hfront

/-- Nothing moves in the first round; the second one reverses the features. -/
def reversedSecond (i : Nat) : Shuffle := fun _ => if i = 0 then 1 else Fin.revPerm

/-- The first tree, which tests the time or the high, is left with the close and
the low. -/
theorem first_tree_loses_features :
    ∃ forest : ForestState CandleStick Exact,
      buildForest (fun _ _ => 1) reversedSecond 2
        ⟨[fallingCandle, risingCandle, risingCandle], by decide⟩ = .ok forest ∧
      ¬ TreesKeepFeatures reversedSecond forest ∧
      ∃ dt i, forest.trees[0]? = some dt ∧ i ∈ dt.root.testedFeatures ∧
        i ∉ dt.featureIdx.read forest.totalFeatures := by
  have hroot : (treeOf (D := Exact) (fun _ _ => 1) reversedSecond
      [fallingCandle, risingCandle, risingCandle] 0).root =
        growTree calcEntropy false [0, 1] [fallingCandle, risingCandle] := rfl
  have hnow : (FeatureView.mk 0 2).read (afterShuffles reversedSecond [0, 1, 2, 3] 2) = [3, 2] :=
    rfl
  have hrange : ∀ i ∈ [(0 : Int), 1], IsFeature i := by simp [IsFeature]
  obtain ⟨i, htested⟩ := exists_tested false (by decide) (List.cons_ne_nil _ _) hrange
    List.mem_cons_self
    (List.mem_cons_of_mem fallingCandle (List.mem_singleton_self risingCandle)) (by decide)
  have hlost : i ∉ [(3 : Int), 2] := by
    have hin := (grown_growTree _ _ _ _).testedFeatures_subset i htested
    simp only [List.mem_cons, List.not_mem_nil, or_false] at hin ⊢
    omega
  rw [← hroot] at htested
  rw [← hnow] at hlost
  refine ⟨_, buildForest_eq _ _ 2 (by decide) (by decide), ?_, _, i, rfl, htested, hlost⟩
  intro hkeeps
  exact hlost ((hkeeps 0 _ rfl).tested i htested)

end RandomForest

end Forex
