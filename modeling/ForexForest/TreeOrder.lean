import ForexForest.LeafPurity

/-!
# Order and routing in a grown tree

Every node of a grown tree is itself grown from a part of the training list
(`Grown.subtree`), so what one split guarantees holds at every node.

* `buildDTree_inOrder` — a split keeps the smaller values of its feature on the
  left and the threshold with the larger ones on the right, down to all
  descendants; only an instance on the left that ties with the threshold is
  routed away from its child;
* `classify_total_sound` — `findMatch` meets no absent child, no absent
  threshold and no empty leaf, and answers with a training label.

Neither depends on the values of the entropies.
-/

namespace Forex

open Java Arith

namespace DTNode

variable {D : Type}

/-- The nodes of a tree, each with what is below it. -/
def subtrees : DTNode D → List (DTNode D)
  | .null => []
  | .node instances entropy left right testCond thresholdIns =>
      .node instances entropy left right testCond thresholdIns :: (left.subtrees ++ right.subtrees)

/-- The threshold instance of a node that tests the feature. -/
def thresholdOn (feature : Int) : DTNode D → Option CandleStick
  | .null => none
  | .node _ _ _ _ testCond thresholdIns => if testCond = feature then thresholdIns else none

/-- The threshold is one of the instances on the right, no value of the tested
feature on the left exceeds its value and none on the right is below it, and
routing agrees with the children except for ties on the left. -/
structure SplitsInOrder (featureIdx : List Int) (left right : DTNode D) (testCond : Int)
    (threshold : CandleStick) : Prop where
  feature_mem : testCond ∈ featureIdx
  threshold_mem : threshold ∈ right.instances
  left_le : ∀ sub ∈ left.subtrees, ∀ a ∈ sub.instances, a.compareWith threshold testCond ≤ 0
  right_ge : ∀ sub ∈ right.subtrees, ∀ b ∈ sub.instances, 0 ≤ b.compareWith threshold testCond
  left_thresholds : ∀ sub ∈ left.subtrees, ∀ t ∈ sub.thresholdOn testCond,
    t.compareWith threshold testCond ≤ 0
  right_thresholds : ∀ sub ∈ right.subtrees, ∀ t ∈ sub.thresholdOn testCond,
    0 ≤ t.compareWith threshold testCond
  left_routed : ∀ a ∈ left.instances, inLeftBranch testCond (some threshold) a = .ok false →
    a.compareWith threshold testCond = 0
  right_routed : ∀ b ∈ right.instances, inLeftBranch testCond (some threshold) b = .ok false

/-- A node without children and threshold, or one that splits in order. -/
def InOrder (featureIdx : List Int) : DTNode D → Prop
  | .null => True
  | .node _ _ left right testCond thresholdIns =>
      (left = .null ∧ right = .null ∧ thresholdIns = none) ∨
        ∃ threshold, thresholdIns = some threshold ∧
          SplitsInOrder featureIdx left right testCond threshold

/-- Every node splits in order, or is a leaf. -/
def OrderInvariant (featureIdx : List Int) (root : DTNode D) : Prop :=
  ∀ node ∈ root.subtrees, node.InOrder featureIdx

/-- The nodes that `findMatch` enters on its way with a candle. -/
inductive Reaches [Arith D] (cs : CandleStick) : DTNode D → DTNode D → Prop
  | here (t : DTNode D) : Reaches cs t t
  | left {instances : List CandleStick} {entropy : D} {left right t : DTNode D} {testCond : Int}
      {thresholdIns : Option CandleStick}
      (hleaf : ¬ (isZero entropy || (left.isNull && right.isNull)) = true)
      (hbranch : inLeftBranch testCond thresholdIns cs = .ok true) (h : Reaches cs left t) :
      Reaches cs (.node instances entropy left right testCond thresholdIns) t
  | right {instances : List CandleStick} {entropy : D} {left right t : DTNode D} {testCond : Int}
      {thresholdIns : Option CandleStick}
      (hleaf : ¬ (isZero entropy || (left.isNull && right.isNull)) = true)
      (hbranch : inLeftBranch testCond thresholdIns cs = .ok false) (h : Reaches cs right t) :
      Reaches cs (.node instances entropy left right testCond thresholdIns) t

/-- A node on which `findMatch` does not fail: a leaf with an instance, or an
inner node of non-zero entropy with both children and a threshold. -/
inductive SafeNode [Arith D] : DTNode D → Prop
  | leaf {instances : List CandleStick} {entropy : D} {testCond : Int} (hne : instances ≠ []) :
      SafeNode (.node instances entropy .null .null testCond none)
  | inner {instances : List CandleStick} {entropy : D} {left right : DTNode D} {testCond : Int}
      {threshold : CandleStick} (hne : instances ≠ []) (hentropy : ¬ isZero entropy = true)
      (hleft : left ≠ .null) (hright : right ≠ .null) :
      SafeNode (.node instances entropy left right testCond (some threshold))

end DTNode

open DTNode

section Nodes

variable {D : Type} [Arith D] {entropyOf : List CandleStick → D} {stopsAtOne : Bool}
  {featureIdx : List Int} {instances : List CandleStick} {t : DTNode D}

/-- Every node of a grown tree is grown from a part of the list. -/
theorem Grown.subtree (h : Grown entropyOf stopsAtOne featureIdx instances t) :
    ∀ sub ∈ t.subtrees, ∃ part, Grown entropyOf stopsAtOne featureIdx part sub ∧
      ∀ a ∈ part, a ∈ instances := by
  have hself := h
  induction h with
  | pure =>
      intro sub hsub
      rw [List.mem_singleton.mp hsub]
      exact ⟨_, hself, fun _ ha => ha⟩
  | exhausted =>
      intro sub hsub
      rw [List.mem_singleton.mp hsub]
      exact ⟨_, hself, fun _ ha => ha⟩
  | split hstop hc hattr hbest hleft hright ihleft ihright =>
      intro sub hsub
      have hperm := (mem_cuts hc).2.1
      rcases List.mem_cons.mp hsub with rfl | hsub
      · exact ⟨_, hself, fun _ ha => ha⟩
      rcases List.mem_append.mp hsub with hsub | hsub
      · obtain ⟨part, hpart, hmem⟩ := ihleft hleft sub hsub
        exact ⟨part, hpart, fun a ha => hperm.mem_iff.mp (List.mem_of_mem_take (hmem a ha))⟩
      · obtain ⟨part, hpart, hmem⟩ := ihright hright sub hsub
        exact ⟨part, hpart, fun a ha => hperm.mem_iff.mp (List.mem_of_mem_drop (hmem a ha))⟩

/-- The nodes below hold instances of the list only. -/
theorem Grown.mem_of_subtree (h : Grown entropyOf stopsAtOne featureIdx instances t)
    {sub : DTNode D} (hsub : sub ∈ t.subtrees) {a : CandleStick} (ha : a ∈ sub.instances) :
    a ∈ instances := by
  obtain ⟨part, hpart, hmem⟩ := h.subtree sub hsub
  exact hmem a (hpart.instances_perm.mem_iff.mp ha)

/-- A threshold is one of the instances of its node. -/
theorem Grown.threshold_mem (h : Grown entropyOf stopsAtOne featureIdx instances t) {feature : Int}
    {threshold : CandleStick} (hthreshold : threshold ∈ t.thresholdOn feature) :
    threshold ∈ t.instances := by
  cases h with
  | pure => simp [leafNode, thresholdOn] at hthreshold
  | exhausted => simp [leafNode, thresholdOn] at hthreshold
  | split hstop hc hattr hbest hleft hright =>
      rw [thresholdOn] at hthreshold
      split_ifs at hthreshold
      · have hmem := List.mem_of_getElem? hthreshold
        exact (search_perm _ _).mem_iff.mpr ((mem_cuts hc).2.1.mem_iff.mp hmem)
      · cases hthreshold

/-- The instances behind a cut never compare below the threshold, which is the
first of them. -/
theorem right_not_below {c : Cut} (hc : c ∈ cuts featureIdx instances) {threshold : CandleStick}
    {rest : List CandleStick} (hright : c.right = threshold :: rest) :
    ∀ b ∈ c.right, ¬ b.compareWith threshold c.attr < 0 := by
  obtain ⟨-, -, hsorted, -, -⟩ := mem_cuts hc
  rw [← Cut.left_append_right, List.pairwise_append] at hsorted
  have hbehind := hsorted.2.1
  rw [hright, List.pairwise_cons] at hbehind
  intro b hb
  rw [hright] at hb
  apply (CandleStick.featureComparator c.attr).le_iff_not_lt.mp
  rcases List.mem_cons.mp hb with rfl | hb
  · exact ((CandleStick.featureComparator c.attr).le_total b b).elim id id
  · exact hbehind.1 b hb

/-- A split keeps the order of its cut. -/
theorem Grown.splitsInOrder {c : Cut} {left right : DTNode D} {threshold : CandleStick}
    {rest : List CandleStick} (hc : c ∈ cuts featureIdx instances)
    (hcut : c.right = threshold :: rest)
    (hleft : Grown entropyOf stopsAtOne featureIdx c.left left)
    (hright : Grown entropyOf stopsAtOne featureIdx c.right right) :
    SplitsInOrder featureIdx left right c.attr threshold := by
  obtain ⟨hattr, -, hsorted, -, -⟩ := mem_cuts hc
  have hhead : threshold ∈ c.right := by
    rw [hcut]
    exact List.mem_cons_self
  have hle : ∀ a ∈ c.left, a.compareWith threshold c.attr ≤ 0 := by
    intro a ha
    exact (CandleStick.featureComparator c.attr).take_le_drop hsorted ha hhead
  have hge : ∀ b ∈ c.right, 0 ≤ b.compareWith threshold c.attr :=
    fun b hb => not_lt.mp (right_not_below hc hcut b hb)
  exact {
    feature_mem := hattr
    threshold_mem := hright.instances_perm.mem_iff.mpr hhead
    left_le := fun sub hsub a ha => hle a (hleft.mem_of_subtree hsub ha)
    right_ge := fun sub hsub b hb => hge b (hright.mem_of_subtree hsub hb)
    left_thresholds := by
      intro sub hsub u hu
      obtain ⟨part, hpart, -⟩ := hleft.subtree sub hsub
      exact hle u (hleft.mem_of_subtree hsub (hpart.threshold_mem hu))
    right_thresholds := by
      intro sub hsub u hu
      obtain ⟨part, hpart, -⟩ := hright.subtree sub hsub
      exact hge u (hright.mem_of_subtree hsub (hpart.threshold_mem hu))
    left_routed := by
      intro a ha hrouted
      have hnot : ¬ a.compareWith threshold c.attr < 0 := by
        simpa [inLeftBranch] using hrouted
      exact le_antisymm (hle a (hleft.instances_perm.mem_iff.mp ha)) (not_lt.mp hnot)
    right_routed := by
      intro b hb
      have hnot := right_not_below hc hcut b (hright.instances_perm.mem_iff.mp hb)
      simpa [inLeftBranch] using hnot }

theorem Grown.inOrder (h : Grown entropyOf stopsAtOne featureIdx instances t) :
    t.InOrder featureIdx := by
  cases h with
  | pure => exact Or.inl ⟨rfl, rfl, rfl⟩
  | exhausted => exact Or.inl ⟨rfl, rfl, rfl⟩
  | split hstop hc hattr hbest hleft hright =>
      obtain ⟨threshold, rest, hthreshold, hcut⟩ := Cut.threshold_eq_head hc
      exact Or.inr ⟨threshold, hthreshold, Grown.splitsInOrder hc hcut hleft hright⟩

/-- A tree grown from a non-empty list is safe at its root. -/
theorem Grown.safeNode (h : Grown entropyOf stopsAtOne featureIdx instances t)
    (hne : instances ≠ []) : SafeNode t := by
  have hsearch : ∀ entropy : D, (search entropyOf entropy featureIdx instances).1 ≠ [] := by
    intro entropy hnil
    have hperm : (search entropyOf entropy featureIdx instances).1.Perm instances :=
      search_perm entropy instances
    rw [hnil] at hperm
    exact hne hperm.nil_eq.symm
  cases h with
  | pure => exact SafeNode.leaf hne
  | exhausted => exact SafeNode.leaf (hsearch _)
  | split hstop hc hattr hbest hleft hright =>
      obtain ⟨threshold, rest, hthreshold, -⟩ := Cut.threshold_eq_head hc
      rw [hthreshold]
      exact SafeNode.inner (hsearch _) (fun hzero => hstop (Or.inl hzero))
        hleft.wellSplit.ne_null hright.wellSplit.ne_null

/-- Whatever `findMatch` enters in a tree grown from a non-empty list is safe. -/
theorem Grown.safeNode_of_reaches {cs : CandleStick} {node : DTNode D}
    (hreach : Reaches cs t node) (h : Grown entropyOf stopsAtOne featureIdx instances t)
    (hne : instances ≠ []) : SafeNode node := by
  induction hreach generalizing instances with
  | here => exact h.safeNode hne
  | left hleaf _ _ ih =>
      cases h with
      | pure => simp [isNull] at hleaf
      | exhausted => simp [isNull] at hleaf
      | split _ hc _ _ hleft _ => exact ih hleft (Cut.left_ne_nil hc)
  | right hleaf _ _ ih =>
      cases h with
      | pure => simp [isNull] at hleaf
      | exhausted => simp [isNull] at hleaf
      | split _ hc _ _ _ hright => exact ih hright (Cut.right_ne_nil hc)

end Nodes

/-- **The order invariant of a trained tree.**  Every node of the tree is a leaf
or splits its instances in the order of a used feature. -/
theorem buildDTree_inOrder {D : Type} [Arith D] (entropyOf : List CandleStick → D)
    (stopsAtOne : Bool) (featureIdx : List Int) (allTrainingInstances : List CandleStick) :
    (growTree entropyOf stopsAtOne featureIdx allTrainingInstances).OrderInvariant featureIdx := by
  intro node hnode
  obtain ⟨part, hpart, -⟩ :=
    (grown_growTree entropyOf stopsAtOne featureIdx allTrainingInstances).subtree node hnode
  exact hpart.inOrder

/-- **Classification is total and sound.**  A tree trained on a non-empty list
returns one label for each candle, in order, the label of a training instance,
and `findMatch` enters safe nodes only. -/
theorem classify_total_sound {D : Type} [Arith D] (entropyOf : List CandleStick → D)
    (stopsAtOne : Bool) (featureIdx : List Int) (allTrainingInstances : List CandleStick)
    (hne : allTrainingInstances ≠ []) (testingInstances : List CandleStick) :
    let root := growTree entropyOf stopsAtOne featureIdx allTrainingInstances
    (∃ predictedLabels, classifyTree root testingInstances = .ok predictedLabels ∧
      List.Forall₂ (fun cs label => findMatch root cs = .ok label ∧
        ∃ x ∈ allTrainingInstances, x.label = label) testingInstances predictedLabels) ∧
    ∀ cs node, Reaches cs root node → SafeNode node := by
  intro root
  have hgrown := grown_growTree entropyOf stopsAtOne featureIdx allTrainingInstances
  refine ⟨?_, fun cs node hreach => hgrown.safeNode_of_reaches hreach hne⟩
  induction testingInstances with
  | nil => exact ⟨[], rfl, List.Forall₂.nil⟩
  | cons cs testingInstances ih =>
      obtain ⟨x, hx, hfind⟩ := findMatch_growTree entropyOf stopsAtOne featureIdx hne cs
      obtain ⟨labels, hlabels, hsound⟩ := ih
      refine ⟨x.label :: labels, ?_, List.Forall₂.cons ⟨hfind, x, hx, rfl⟩ hsound⟩
      rw [classifyTree] at hlabels ⊢
      rw [List.mapM_cons, hfind, hlabels]
      rfl

theorem classify_total_sound_pair :
    ∃ label, classifyTree (growTree calcEntropy false [0, 1] [fallingCandle, risingCandle] :
      DTNode Exact) [risingCandle] = .ok [label] ∧
      ∃ x ∈ [fallingCandle, risingCandle], x.label = label := by
  obtain ⟨⟨labels, hlabels, hsound⟩, -⟩ := classify_total_sound
    (calcEntropy : List CandleStick → Exact) false [0, 1] [fallingCandle, risingCandle]
    (List.cons_ne_nil _ _) [risingCandle]
  obtain ⟨label, rest, ⟨-, hlabel⟩, hrest, rfl⟩ := List.forall₂_cons_left_iff.mp hsound
  rw [List.forall₂_nil_left_iff.mp hrest] at hlabels
  exact ⟨label, hlabels, hlabel⟩

end Forex
