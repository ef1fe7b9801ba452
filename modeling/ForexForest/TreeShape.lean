import ForexForest.DecisionTree

/-!
# The shape of a grown tree

`Grown` describes a finished tree by the exits that `buildDTree` took at each
node: the node stopped at once, or no cut beat the initial gain, or the loops
chose a cut and both of its sides were grown in turn.

`WellSplit` is the shape that results: a node has either no child and no
threshold, or two children that share out its instances, neither of them empty.
The leaves then partition the training list, which bounds the number of leaves
and of nodes.  Nothing here depends on the values of the entropies.
-/

namespace Forex

open Java Arith

namespace DTNode

variable {D : Type}

/-- The instances that a node holds. -/
def instances : DTNode D → List CandleStick
  | .null => []
  | .node instances _ _ _ _ _ => instances

/-- The instance lists of the leaves, from left to right. -/
def leaves : DTNode D → List (List CandleStick)
  | .null => []
  | .node instances _ .null .null _ _ => [instances]
  | .node _ _ left right _ _ => left.leaves ++ right.leaves

/-- The number of nodes. -/
def nodeCount : DTNode D → Nat
  | .null => 0
  | .node _ _ left right _ _ => left.nodeCount + 1 + right.nodeCount

/-- Every node has no child and no threshold instance, or a threshold instance
and two children whose instances, none of them missing on either side, together
are its own. -/
inductive WellSplit : DTNode D → Prop
  | leaf {instances : List CandleStick} {entropy : D} {testCond : Int} :
      WellSplit (.node instances entropy .null .null testCond none)
  | inner {instances : List CandleStick} {entropy : D} {left right : DTNode D}
      {testCond : Int} {threshold : CandleStick}
      (hshare : (left.instances ++ right.instances).Perm instances)
      (hleftNe : left.instances ≠ []) (hrightNe : right.instances ≠ [])
      (hleft : WellSplit left) (hright : WellSplit right) :
      WellSplit (.node instances entropy left right testCond (some threshold))

/-- A well split tree has a root. -/
theorem WellSplit.ne_null {t : DTNode D} (h : WellSplit t) : t ≠ .null := by
  cases h with
  | leaf => simp
  | inner => simp

/-- The leaves of an inner node are those of its children, from left to right. -/
theorem leaves_inner {instances : List CandleStick} {entropy : D} {left right : DTNode D}
    {testCond : Int} {threshold : Option CandleStick} (hleft : left ≠ .null) :
    (DTNode.node instances entropy left right testCond threshold).leaves =
      left.leaves ++ right.leaves := by
  cases left with
  | null => exact absurd rfl hleft
  | node => rfl

/-- The leaves share out the instances of the root. -/
theorem WellSplit.leaves_perm {t : DTNode D} (h : WellSplit t) :
    t.leaves.flatten.Perm t.instances := by
  induction h with
  | leaf => simp [leaves, instances]
  | inner hshare _ _ hleft _ ihleft ihright =>
      rw [leaves_inner hleft.ne_null, List.flatten_append]
      exact (ihleft.append ihright).trans hshare

/-- A tree of non-empty nodes has no more leaves than instances. -/
theorem WellSplit.leaves_length_le {t : DTNode D} (h : WellSplit t)
    (hne : t.instances ≠ []) : t.leaves.length ≤ t.instances.length := by
  induction h with
  | leaf => exact List.length_pos_iff.mpr hne
  | inner hshare hleftNe hrightNe hleft _ ihleft ihright =>
      have hlength := hshare.length_eq
      rw [List.length_append] at hlength
      have h1 := ihleft hleftNe
      have h2 := ihright hrightNe
      rw [leaves_inner hleft.ne_null, List.length_append]
      simp only [instances] at *
      omega

/-- Every inner node has two children, so there is one more leaf than inner
nodes. -/
theorem WellSplit.nodeCount_eq {t : DTNode D} (h : WellSplit t) :
    t.nodeCount + 1 = 2 * t.leaves.length := by
  induction h with
  | leaf => rfl
  | inner _ _ _ hleft _ ihleft ihright =>
      rw [leaves_inner hleft.ne_null, List.length_append, nodeCount]
      omega

/-- A tree of non-empty nodes answers every candle, with the label of one of its
instances. -/
theorem WellSplit.findMatch_mem [Arith D] {t : DTNode D} (h : WellSplit t)
    (hne : t.instances ≠ []) (cs : CandleStick) :
    ∃ x ∈ t.instances, findMatch t cs = .ok x.label := by
  have hfirst : ∀ l : List CandleStick, l ≠ [] → ∃ x ∈ l, firstLabel l = .ok x.label := by
    intro l hl
    obtain ⟨x, rest, rfl⟩ := List.exists_cons_of_ne_nil hl
    exact ⟨x, List.mem_cons_self, rfl⟩
  induction h with
  | leaf =>
      rw [findMatch, isNull, Bool.and_self, Bool.or_true, if_pos rfl]
      exact hfirst _ hne
  | @inner sorted entropy left right testCond threshold hshare hleftNe hrightNe hleft _
      ihleft ihright =>
      by_cases hzero : isZero entropy = true
      · rw [findMatch, hzero, Bool.true_or, if_pos rfl]
        exact hfirst _ hne
      · rw [findMatch_inner hzero hleft.ne_null]
        split_ifs
        · obtain ⟨x, hx, hfind⟩ := ihleft hleftNe
          exact ⟨x, hshare.mem_iff.mp (List.mem_append_left _ hx), hfind⟩
        · obtain ⟨x, hx, hfind⟩ := ihright hrightNe
          exact ⟨x, hshare.mem_iff.mp (List.mem_append_right _ hx), hfind⟩

end DTNode

section Growing

variable {D : Type} [Arith D] (entropyOf : List CandleStick → D) (stopsAtOne : Bool)
  (featureIdx : List Int)

/-- The first exit of `buildDTree`. -/
def StopsHere (instances : List CandleStick) : Prop :=
  isZero (entropyOf instances) = true ∨ (stopsAtOne = true ∧ instances.length = 1)

variable {entropyOf stopsAtOne featureIdx} in
/-- A node that stops at once keeps its list as it was given. -/
theorem growTree_of_stopsHere {instances : List CandleStick}
    (hstop : StopsHere entropyOf stopsAtOne instances) :
    growTree entropyOf stopsAtOne featureIdx instances =
      leafNode instances (entropyOf instances) := by
  rw [StopsHere] at hstop
  rw [growTree]
  simp only [Bool.or_eq_true, Bool.and_eq_true, beq_iff_eq]
  rw [if_pos hstop]

variable {entropyOf stopsAtOne featureIdx} in
/-- Any other node is what the search leaves behind. -/
theorem growTree_of_continues {instances : List CandleStick}
    (hstop : ¬ StopsHere entropyOf stopsAtOne instances) :
    let found := search entropyOf (entropyOf instances) featureIdx instances
    growTree entropyOf stopsAtOne featureIdx instances =
      if found.2.bestAttr = -1 then leafNode found.1 (entropyOf instances)
      else
        .node found.1 (entropyOf instances)
          (growTree entropyOf stopsAtOne featureIdx found.2.leftInstances)
          (growTree entropyOf stopsAtOne featureIdx found.2.rightInstances)
          found.2.bestAttr found.2.thresholdInstance := by
  rw [StopsHere] at hstop
  rw [growTree]
  simp only [Bool.or_eq_true, Bool.and_eq_true, beq_iff_eq]
  rw [if_neg hstop, dite_eq_ite]

/-- Without the second stopping test only a zero entropy stops. -/
theorem stopsHere_false_iff {instances : List CandleStick} :
    StopsHere entropyOf false instances ↔ isZero (entropyOf instances) = true := by
  simp [StopsHere]

/-- The tree that `buildDTree` makes of a list, by the exit taken at each node. -/
inductive Grown : List CandleStick → DTNode D → Prop
  | pure {instances : List CandleStick} (hstop : StopsHere entropyOf stopsAtOne instances) :
      Grown instances (leafNode instances (entropyOf instances))
  | exhausted {instances : List CandleStick}
      (hstop : ¬ StopsHere entropyOf stopsAtOne instances)
      (hnone : (search entropyOf (entropyOf instances) featureIdx instances).2.bestAttr = -1) :
      Grown instances
        (leafNode (search entropyOf (entropyOf instances) featureIdx instances).1
          (entropyOf instances))
  | split {instances : List CandleStick} {c : Cut} {left right : DTNode D}
      (hstop : ¬ StopsHere entropyOf stopsAtOne instances)
      (hc : c ∈ cuts featureIdx instances) (hattr : c.attr ≠ -1)
      (hbest : (search entropyOf (entropyOf instances) featureIdx instances).2 =
        c.snapshot entropyOf (entropyOf instances))
      (hleft : Grown c.left left) (hright : Grown c.right right) :
      Grown instances
        (.node (search entropyOf (entropyOf instances) featureIdx instances).1
          (entropyOf instances) left right c.attr c.instances[c.idx]?)

/-- `buildDTree` returns a grown tree. -/
theorem grown_growTree (instances : List CandleStick) :
    Grown entropyOf stopsAtOne featureIdx instances
      (growTree entropyOf stopsAtOne featureIdx instances) := by
  induction hn : instances.length using Nat.strong_induction_on generalizing instances with
  | _ n ih =>
      by_cases hstop : StopsHere entropyOf stopsAtOne instances
      · rw [growTree_of_stopsHere hstop]
        exact Grown.pure hstop
      rw [growTree_of_continues hstop]
      by_cases hnone :
          (search entropyOf (entropyOf instances) featureIdx instances).2.bestAttr = -1
      · rw [if_pos hnone]
        exact Grown.exhausted hstop hnone
      · rw [if_neg hnone]
        rcases search_cases entropyOf (entropyOf instances) featureIdx instances with
          h | ⟨c, hc, h⟩
        · exact absurd (congrArg Best.bestAttr h) hnone
        · have hattr : c.attr ≠ -1 := by
            rw [h] at hnone
            exact hnone
          have hleft := ih c.left.length (hn ▸ cut_left_length_lt hc) c.left rfl
          have hright := ih c.right.length (hn ▸ cut_right_length_lt hc) c.right rfl
          rw [h]
          exact Grown.split hstop hc hattr h hleft hright

variable {entropyOf stopsAtOne featureIdx}

/-- The list that the loops leave behind is the node's, in another order. -/
theorem search_perm (entropy : D) (instances : List CandleStick) :
    (search entropyOf entropy featureIdx instances).1.Perm instances := by
  rw [search_fst]
  induction featureIdx generalizing instances with
  | nil => exact List.Perm.refl _
  | cons i featureIdx ih =>
      rw [List.foldl_cons]
      exact (ih _).trans (sortBy_perm i instances)

/-- A grown tree holds the list it was grown from. -/
theorem Grown.instances_perm {instances : List CandleStick} {t : DTNode D}
    (h : Grown entropyOf stopsAtOne featureIdx instances t) : t.instances.Perm instances := by
  cases h with
  | pure => exact List.Perm.refl _
  | exhausted => exact search_perm _ _
  | split => exact search_perm _ _

/-- A tried cut leaves something on its left. -/
theorem Cut.left_ne_nil {instances : List CandleStick} {c : Cut}
    (hc : c ∈ cuts featureIdx instances) : c.left ≠ [] := by
  obtain ⟨-, -, -, hpos, hlt⟩ := mem_cuts hc
  rw [← List.length_pos_iff, Cut.left_length hlt]
  exact hpos

/-- A tried cut leaves something on its right. -/
theorem Cut.right_ne_nil {instances : List CandleStick} {c : Cut}
    (hc : c ∈ cuts featureIdx instances) : c.right ≠ [] := by
  obtain ⟨-, -, -, -, hlt⟩ := mem_cuts hc
  rw [← List.length_pos_iff, Cut.right_length]
  omega

/-- The threshold of a cut is the first instance from the cut on. -/
theorem Cut.threshold_eq_head {instances : List CandleStick} {c : Cut}
    (hc : c ∈ cuts featureIdx instances) :
    ∃ threshold rest, c.instances[c.idx]? = some threshold ∧ c.right = threshold :: rest := by
  obtain ⟨-, -, -, -, hlt⟩ := mem_cuts hc
  exact ⟨c.instances[c.idx], c.instances.drop (c.idx + 1), List.getElem?_eq_getElem hlt,
    List.drop_eq_getElem_cons hlt⟩

/-- A grown tree is well split. -/
theorem Grown.wellSplit {instances : List CandleStick} {t : DTNode D}
    (h : Grown entropyOf stopsAtOne featureIdx instances t) : t.WellSplit := by
  induction h with
  | pure => exact DTNode.WellSplit.leaf
  | exhausted => exact DTNode.WellSplit.leaf
  | @split instances c left right _ hc _ _ hleft hright ihleft ihright =>
      obtain ⟨threshold, rest, hthreshold, -⟩ := Cut.threshold_eq_head hc
      have hl := hleft.instances_perm
      have hr := hright.instances_perm
      rw [hthreshold]
      refine DTNode.WellSplit.inner ?_ ?_ ?_ ihleft ihright
      · have hshare := hl.append hr
        rw [Cut.left_append_right] at hshare
        exact hshare.trans ((mem_cuts hc).2.1.trans (search_perm _ _).symm)
      · intro hnil
        rw [hnil] at hl
        exact Cut.left_ne_nil hc hl.nil_eq.symm
      · intro hnil
        rw [hnil] at hr
        exact Cut.right_ne_nil hc hr.nil_eq.symm

/-- A tree grown from a non-empty list answers every candle. -/
theorem findMatch_growTree (entropyOf : List CandleStick → D) (stopsAtOne : Bool)
    (featureIdx : List Int) {instances : List CandleStick} (hne : instances ≠ [])
    (cs : CandleStick) : ∃ x ∈ instances,
      findMatch (growTree entropyOf stopsAtOne featureIdx instances) cs = .ok x.label := by
  have hgrown := grown_growTree entropyOf stopsAtOne featureIdx instances
  have hperm := hgrown.instances_perm
  have hroot : (growTree entropyOf stopsAtOne featureIdx instances).instances ≠ [] := by
    intro hnil
    rw [hnil] at hperm
    exact hne hperm.nil_eq.symm
  obtain ⟨x, hx, hfind⟩ := hgrown.wellSplit.findMatch_mem hroot cs
  exact ⟨x, hperm.mem_iff.mp hx, hfind⟩

end Growing

/-- **Growing partitions the training list.**  Whatever the entropies and the
stopping rule, the finished tree is well split, its root holds the training
list, its leaves share that list out, and there are at most `n` leaves and
`2n - 1` nodes (one of each for the empty list). -/
theorem growTree_partitions {D : Type} [Arith D] (entropyOf : List CandleStick → D)
    (stopsAtOne : Bool) (featureIdx : List Int) (allTrainingInstances : List CandleStick) :
    let root := growTree entropyOf stopsAtOne featureIdx allTrainingInstances
    root.WellSplit ∧ root.instances.Perm allTrainingInstances ∧
      root.leaves.flatten.Perm allTrainingInstances ∧
      root.leaves.length ≤ max 1 allTrainingInstances.length ∧
      root.nodeCount ≤ 2 * max 1 allTrainingInstances.length - 1 := by
  intro root
  have hgrown := grown_growTree entropyOf stopsAtOne featureIdx allTrainingInstances
  have hsplit : root.WellSplit := hgrown.wellSplit
  have hperm : root.instances.Perm allTrainingInstances := hgrown.instances_perm
  have hnodes := hsplit.nodeCount_eq
  have hleaves : root.leaves.length ≤ max 1 allTrainingInstances.length := by
    by_cases hne : root.instances = []
    · have hone : ∀ t : DTNode D, t.WellSplit → t.instances = [] → t.leaves.length = 1 := by
        intro t ht hnil
        cases ht with
        | leaf => rfl
        | inner hshare hleftNe =>
            simp only [DTNode.instances] at hnil
            rw [hnil] at hshare
            exact absurd (List.append_eq_nil_iff.mp hshare.eq_nil).1 hleftNe
      rw [hone root hsplit hne]
      exact le_max_left _ _
    · have hle := hsplit.leaves_length_le hne
      rw [hperm.length_eq] at hle
      exact hle.trans (le_max_right _ _)
  exact ⟨hsplit, hperm, hsplit.leaves_perm.trans hperm, hleaves, by omega⟩

end Forex
