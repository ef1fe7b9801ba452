import ForexForest.CandleStick

/-!
# The decision tree learner

`buildDTree` grows a tree over a list of instances: it sorts the list by each
feature in turn, tries every cut of the sorted list, keeps the cut of greatest
information gain and recurses on both sides.  The learner exists in four
projects; the later copies also stop at a single instance, and the first one has
its four features built in.

The arithmetic on entropies is a parameter (`Arith`), and so is the entropy
itself in the growing functions, so that facts about the shape of a tree hold
whatever the values are.  `DTNode` keeps the references of the class: a child
may be `null`, and so may the threshold instance.

`cuts` lists the cuts in the order in which the two loops try them;
`search_snd` says that the loops are one pass over this list, and `Grown` that a
finished tree records one such pass at every inner node.
-/

namespace Forex

open Java

/-- The operations on `double` that the learner uses. -/
class Arith (D : Type) where
  ofNat : Nat → D
  sub : D → D → D
  mul : D → D → D
  div : D → D → D
  log : D → D
  isZero : D → Bool
  gt : D → D → Bool
  minValue : D

/-- The three counters of `calcEntropy`. -/
structure LabelCounts where
  riseCount : Nat
  dropCount : Nat
  constantCount : Nat

/-- One round of the counting loop. -/
def LabelCounts.add (counts : LabelCounts) (instance_ : CandleStick) : LabelCounts :=
  if instance_.label = 1 then { counts with riseCount := counts.riseCount + 1 }
  else if instance_.label = -1 then { counts with dropCount := counts.dropCount + 1 }
  else { counts with constantCount := counts.constantCount + 1 }

section Learner

variable {D : Type} [Arith D]

open Arith

/-- `if (prob != 0) entropy -= prob * Math.log(prob)`. -/
def subtractTerm (entropy prob : D) : D :=
  if isZero prob then entropy else sub entropy (mul prob (log prob))

/-- `calcEntropy`. -/
def calcEntropy (sampleInstances : List CandleStick) : D :=
  let n : D := ofNat sampleInstances.length
  let counts := sampleInstances.foldl LabelCounts.add ⟨0, 0, 0⟩
  let riseProb := div (ofNat counts.riseCount) n
  let dropProb := div (ofNat counts.dropCount) n
  let constantProb := div (ofNat counts.constantCount) n
  subtractTerm (subtractTerm (subtractTerm (ofNat 0) riseProb) dropProb) constantProb

/-- The information gain of a cut into `left` and `right` instances. -/
def infoGain (entropy leftEntropy rightEntropy : D) (left right size : Nat) : D :=
  sub (sub entropy (mul (div (ofNat left) (ofNat size)) leftEntropy))
    (mul (div (ofNat right) (ofNat size)) rightEntropy)

/-- The five variables of the best split so far.  `thresholdInstance` starts as
an empty candle that is never read; here it starts absent. -/
structure Best (D : Type) where
  bestAttr : Int
  bestIG : D
  thresholdInstance : Option CandleStick
  leftInstances : List CandleStick
  rightInstances : List CandleStick

/-- Their values before the loops. -/
def Best.start : Best D := ⟨-1, minValue, none, [], []⟩

/-- The in-place sort at the head of the feature loop. -/
def sortBy (i : Int) (instances : List CandleStick) : List CandleStick :=
  if i = 0 then CandleStick.timeComparator.sort instances
  else if i = 1 then CandleStick.highPriceComparator.sort instances
  else if i = 2 then CandleStick.lowPriceComparator.sort instances
  else if i = 3 then CandleStick.closePriceComparator.sort instances
  else instances

variable (entropyOf : List CandleStick → D)

/-- The body of the cut loop. -/
def tryThreshold (entropy : D) (i : Int) (instances : List CandleStick) (best : Best D)
    (thresholdIdx : Nat) : Best D :=
  let left := instances.take thresholdIdx
  let right := instances.drop thresholdIdx
  let gain := infoGain entropy (entropyOf left) (entropyOf right)
    left.length right.length instances.length
  if gt gain best.bestIG then
    { bestAttr := i
      bestIG := gain
      thresholdInstance := instances[thresholdIdx]?
      leftInstances := left
      rightInstances := right }
  else best

/-- The body of the feature loop, on the node's list and the best split. -/
def tryFeature (entropy : D) (st : List CandleStick × Best D) (i : Int) :
    List CandleStick × Best D :=
  let instances := sortBy i st.1
  (instances,
    (List.range' 1 (instances.length - 1)).foldl (tryThreshold entropyOf entropy i instances) st.2)

/-- Both loops. -/
def search (entropy : D) (featureIdx : List Int) (instances : List CandleStick) :
    List CandleStick × Best D :=
  featureIdx.foldl (tryFeature entropyOf entropy) (instances, Best.start)

/-- A candidate cut: `instances`, sorted by the feature `attr`, in front of and
from the position `idx` on. -/
structure Cut where
  attr : Int
  instances : List CandleStick
  idx : Nat
deriving DecidableEq

namespace Cut

/-- The instances in front of the cut. -/
def left (c : Cut) : List CandleStick := c.instances.take c.idx

/-- The instances from the cut on. -/
def right (c : Cut) : List CandleStick := c.instances.drop c.idx

/-- The gain that the loops compute for the cut. -/
def gain (entropy : D) (c : Cut) : D :=
  infoGain entropy (entropyOf c.left) (entropyOf c.right)
    c.left.length c.right.length c.instances.length

/-- What the loops record when the cut wins. -/
def snapshot (entropy : D) (c : Cut) : Best D :=
  ⟨c.attr, c.gain entropyOf entropy, c.instances[c.idx]?, c.left, c.right⟩

end Cut

/-- The cuts in the order of the loops: feature by feature, each on the list as
the sorts so far have left it, from front to back. -/
def cuts : List Int → List CandleStick → List Cut
  | [], _ => []
  | i :: featureIdx, instances =>
      let sorted := sortBy i instances
      (List.range' 1 (sorted.length - 1)).map (Cut.mk i sorted) ++ cuts featureIdx sorted

/-- The comparison with the best split so far. -/
def consider (entropy : D) (best : Best D) (c : Cut) : Best D :=
  if gt (c.gain entropyOf entropy) best.bestIG then c.snapshot entropyOf entropy else best

/-- The loops are one pass over the cuts. -/
theorem search_snd (entropy : D) (featureIdx : List Int) (instances : List CandleStick) :
    (search entropyOf entropy featureIdx instances).2 =
      (cuts featureIdx instances).foldl (consider entropyOf entropy) Best.start := by
  unfold search
  generalize (Best.start : Best D) = best
  induction featureIdx generalizing instances best with
  | nil => rfl
  | cons i featureIdx ih =>
      rw [List.foldl_cons, cuts, List.foldl_append, List.foldl_map, ← ih]
      rfl

/-- The loops leave the list sorted by one feature after the other. -/
theorem search_fst (entropy : D) (featureIdx : List Int) (instances : List CandleStick) :
    (search entropyOf entropy featureIdx instances).1 =
      featureIdx.foldl (fun l i => sortBy i l) instances := by
  unfold search
  generalize (Best.start : Best D) = best
  induction featureIdx generalizing instances best with
  | nil => rfl
  | cons i featureIdx ih =>
      rw [List.foldl_cons, List.foldl_cons, ← ih]
      rfl

/-- What the loops leave behind: the initial values, or the snapshot of a cut
that they tried. -/
theorem search_cases (entropy : D) (featureIdx : List Int) (instances : List CandleStick) :
    (search entropyOf entropy featureIdx instances).2 = Best.start ∨
      ∃ c ∈ cuts featureIdx instances,
        (search entropyOf entropy featureIdx instances).2 = c.snapshot entropyOf entropy := by
  rw [search_snd]
  refine List.foldlRecOn (cuts featureIdx instances) (consider entropyOf entropy)
    (motive := fun best => best = Best.start ∨
      ∃ c ∈ cuts featureIdx instances, best = c.snapshot entropyOf entropy)
    (Or.inl rfl) ?_
  intro best hbest c hc
  unfold consider
  split_ifs
  · exact Or.inr ⟨c, hc, rfl⟩
  · exact hbest

end Learner

/-- The four branches of the sort are one stable sort by the comparator of the
feature; an unknown feature leaves the list as it is, as its comparator calls
everything equal. -/
theorem sortBy_eq_sort (i : Int) (instances : List CandleStick) :
    sortBy i instances = (CandleStick.featureComparator i).sort instances := by
  unfold sortBy
  split_ifs with h0 h1 h2 h3
  · subst h0; rfl
  · subst h1; rfl
  · subst h2; rfl
  · subst h3; rfl
  · refine (List.Pairwise.insertionSort_eq ?_).symm
    refine List.pairwise_of_forall fun a b => ?_
    simp [Comparator.le, CandleStick.featureComparator, CandleStick.compareWith, h0, h1, h2, h3]

/-- So the sort permutes the list. -/
theorem sortBy_perm (i : Int) (instances : List CandleStick) :
    (sortBy i instances).Perm instances := by
  rw [sortBy_eq_sort]
  exact Comparator.sort_perm _ _

/-- A cut that the loops try: its list is the node's, sorted by a used feature,
and neither side is empty. -/
theorem mem_cuts {featureIdx : List Int} {instances : List CandleStick} {c : Cut}
    (hc : c ∈ cuts featureIdx instances) :
    c.attr ∈ featureIdx ∧ c.instances.Perm instances ∧
      c.instances.Pairwise (CandleStick.featureComparator c.attr).le ∧
      0 < c.idx ∧ c.idx < c.instances.length := by
  induction featureIdx generalizing instances with
  | nil => simp [cuts] at hc
  | cons i featureIdx ih =>
      simp only [cuts, List.mem_append, List.mem_map, List.mem_range'_1] at hc
      rcases hc with ⟨idx, hidx, rfl⟩ | hc
      · refine ⟨List.mem_cons_self, sortBy_perm i instances, ?_, by simp only; omega,
          by simp only; omega⟩
        simp only
        rw [sortBy_eq_sort]
        exact Comparator.sort_pairwise _ _
      · obtain ⟨hattr, hperm, hsorted, hpos, hlt⟩ := ih hc
        exact ⟨List.mem_cons_of_mem i hattr, hperm.trans (sortBy_perm i instances),
          hsorted, hpos, hlt⟩

namespace Cut

/-- The two sides of a cut make up its list. -/
theorem left_append_right (c : Cut) : c.left ++ c.right = c.instances :=
  List.take_append_drop c.idx c.instances

/-- A cut inside the list leaves as many instances in front as its position says. -/
theorem left_length {c : Cut} (h : c.idx < c.instances.length) : c.left.length = c.idx := by
  rw [left, List.length_take]
  omega

/-- The other instances of the list are behind the cut. -/
theorem right_length (c : Cut) : c.right.length = c.instances.length - c.idx :=
  List.length_drop

end Cut

/-- The left side of a tried cut is shorter than the node's list, for the cut is not
behind it. -/
theorem cut_left_length_lt {featureIdx : List Int} {instances : List CandleStick} {c : Cut}
    (hc : c ∈ cuts featureIdx instances) : c.left.length < instances.length := by
  obtain ⟨-, hperm, -, -, hlt⟩ := mem_cuts hc
  rw [Cut.left_length hlt, ← hperm.length_eq]
  exact hlt

/-- The right side is shorter too, for the cut is not in front of the list.  With
the left side this makes the recursion of `buildDTree` end. -/
theorem cut_right_length_lt {featureIdx : List Int} {instances : List CandleStick} {c : Cut}
    (hc : c ∈ cuts featureIdx instances) : c.right.length < instances.length := by
  obtain ⟨-, hperm, -, hpos, hlt⟩ := mem_cuts hc
  rw [Cut.right_length, ← hperm.length_eq]
  omega

/-- The class `DTNode`, with the references that may be absent. -/
inductive DTNode (D : Type) where
  | null
  | node (instances : List CandleStick) (entropy : D) (left right : DTNode D)
      (testCond : Int) (thresholdIns : Option CandleStick)

section Growing

variable {D : Type} [Arith D]

open Arith

/-- A node without children, as `buildDTree` leaves it at its two early exits. -/
def leafNode (instances : List CandleStick) (entropy : D) : DTNode D :=
  .node instances entropy .null .null 0 none

/-- `buildDTree`, with the entropy and the second stopping rule as parameters. -/
def growTree (entropyOf : List CandleStick → D) (stopsAtOne : Bool) (featureIdx : List Int)
    (instances : List CandleStick) : DTNode D :=
  let entropy := entropyOf instances
  if isZero entropy || (stopsAtOne && instances.length == 1) then
    leafNode instances entropy
  else
    let found := search entropyOf entropy featureIdx instances
    if _hfound : found.2.bestAttr = -1 then
      leafNode found.1 entropy
    else
      .node found.1 entropy
        (growTree entropyOf stopsAtOne featureIdx found.2.leftInstances)
        (growTree entropyOf stopsAtOne featureIdx found.2.rightInstances)
        found.2.bestAttr found.2.thresholdInstance
termination_by instances.length
decreasing_by
  · rcases search_cases entropyOf entropy featureIdx instances with h | ⟨c, hc, h⟩
    · exact absurd (congrArg Best.bestAttr h) _hfound
    · rw [h]
      exact cut_left_length_lt hc
  · rcases search_cases entropyOf entropy featureIdx instances with h | ⟨c, hc, h⟩
    · exact absurd (congrArg Best.bestAttr h) _hfound
    · rw [h]
      exact cut_right_length_lt hc

/-- `buildDTree` of the single-tree project: all four features. -/
def SingleTree.buildDTree (instances : List CandleStick) : DTNode D :=
  growTree calcEntropy false [0, 1, 2, 3] instances

/-- `buildDTree` of the forest project: the features of the tree. -/
def Forest.buildDTree (featureIdx : List Int) (instances : List CandleStick) : DTNode D :=
  growTree calcEntropy false featureIdx instances

/-- `buildDTree` of the Cassandra project, which also stops at one instance. -/
def Cassandra.buildDTree (featureIdx : List Int) (instances : List CandleStick) : DTNode D :=
  growTree calcEntropy true featureIdx instances

/-- `buildDTree` of the map-reduce project, which also stops at one instance. -/
def MapReduce.buildDTree (featureIdx : List Int) (instances : List CandleStick) : DTNode D :=
  growTree calcEntropy true featureIdx instances

/-- `inLeftBranch`: a candle goes left when it compares below the threshold.
Comparing with an absent threshold fails, except on an unknown feature, whose
branch of `compareWith` does not read it. -/
def inLeftBranch (testCond : Int) (thresholdIns : Option CandleStick) (cs : CandleStick) :
    Except Exception Bool :=
  match thresholdIns with
  | some toCmp => .ok (cs.compareWith toCmp testCond < 0)
  | none =>
      if testCond = 0 ∨ testCond = 1 ∨ testCond = 2 ∨ testCond = 3 then .error .nullPointer
      else .ok false

/-- `getInstances().get(0).getLabel()`. -/
def firstLabel (instances : List CandleStick) : Except Exception Int32 :=
  match instances with
  | [] => .error .indexOutOfBounds
  | first :: _ => .ok first.label

/-- Whether the reference is `null`. -/
def DTNode.isNull : DTNode D → Bool
  | .null => true
  | .node .. => false

/-- `findMatch`. -/
def findMatch : DTNode D → CandleStick → Except Exception Int32
  | .null, _ => .error .nullPointer
  | .node instances entropy left right testCond thresholdIns, cs =>
      if isZero entropy || (left.isNull && right.isNull) then firstLabel instances
      else do
        if ← inLeftBranch testCond thresholdIns cs then findMatch left cs
        else findMatch right cs

/-- A leaf answers every candle with the label of its first instance. -/
theorem findMatch_leafNode (instances : List CandleStick) (entropy : D) (cs : CandleStick) :
    findMatch (leafNode instances entropy) cs = firstLabel instances := by
  simp [leafNode, findMatch, DTNode.isNull]

/-- At an inner node of non-zero entropy the test decides. -/
theorem findMatch_inner {instances : List CandleStick} {entropy : D} {left right : DTNode D}
    {testCond : Int} {toCmp : CandleStick} (hentropy : ¬ isZero entropy = true)
    (hleft : left ≠ .null) (cs : CandleStick) :
    findMatch (.node instances entropy left right testCond (some toCmp)) cs =
      if cs.compareWith toCmp testCond < 0 then findMatch left cs else findMatch right cs := by
  have hnull : left.isNull = false := by
    cases left with
    | null => exact absurd rfl hleft
    | node => rfl
  rw [findMatch, hnull, Bool.false_and, Bool.or_false, if_neg hentropy, inLeftBranch, ok_bind]
  simp only [decide_eq_true_eq]

/-- `classify` of a tree. -/
def classifyTree (root : DTNode D) (testingInstances : List CandleStick) :
    Except Exception (List Int32) :=
  testingInstances.mapM (findMatch root)

end Growing

end Forex
