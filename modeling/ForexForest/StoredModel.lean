import ForexForest.LeafPurity

/-!
# The stored model

The map-reduce project stores a tree as JSON: its precision, its features and an
in-order text of its nodes, in which a leaf is `[]` whatever it decides.

Growing never looks at the labels except through the entropy, so a relabelling
that keeps the entropies grows the same tree with other labels at the leaves
(`growTree_map`).  `swapLabel` is such a relabelling that moves every label, and
the text does not show it (`inOrder_map`): no stored model determines its
classifier.
-/

namespace Forex

open Java Arith

section Text

variable {D : Type}

/-- `DTNode.toString`; the string stays `null` on an unknown feature. -/
def nodeText (jdk : Jdk) (testCond : Int) (thresholdIns : Option CandleStick) : Option JString :=
  match thresholdIns with
  | none => some (lit "[]")
  | some threshold =>
      if testCond = 0 then some (lit "[time|" ++ threshold.time ++ lit "]")
      else if testCond = 1 then
        some (lit "[high|" ++ jdk.doubleToString threshold.high ++ lit "]")
      else if testCond = 2 then
        some (lit "[low|" ++ jdk.doubleToString threshold.low ++ lit "]")
      else if testCond = 3 then
        some (lit "[close|" ++ jdk.doubleToString threshold.close ++ lit "]")
      else none

/-- `inOrder`. -/
def inOrder (jdk : Jdk) : DTNode D → JString
  | .null => lit " "
  | .node _ _ left right testCond thresholdIns =>
      inOrder jdk left ++ (nodeText jdk testCond thresholdIns).getD (lit "null") ++
        inOrder jdk right

end Text

/-- The class `DecisionTree` of the map-reduce project. -/
structure DecisionTree (D : Type) where
  root : DTNode D
  precision : Double
  featureIdx : List Int

/-- The entries of the JSON object. -/
structure ModelJson where
  precision : Double
  features : List Int
  tree : JString

namespace DecisionTree

variable {D : Type} [Arith D]

/-- The constructor followed by `train`. -/
def train (allTrainingInstances : List CandleStick) (featureIdx : List Int) : DecisionTree D where
  root := MapReduce.buildDTree featureIdx allTrainingInstances
  precision := Double.zero
  featureIdx := featureIdx

/-- `toJSON`. -/
def toJSON (jdk : Jdk) (this : DecisionTree D) : ModelJson where
  precision := this.precision
  features := this.featureIdx
  tree := inOrder jdk this.root

/-- `classify`. -/
def classify (this : DecisionTree D) (testingInstances : List CandleStick) :
    Except Exception (List Int32) :=
  classifyTree this.root testingInstances

end DecisionTree

section Mapping

variable {D : Type} (f : CandleStick → CandleStick)

/-- The tree with every candle replaced. -/
def DTNode.map : DTNode D → DTNode D
  | .null => .null
  | .node instances entropy left right testCond thresholdIns =>
      .node (instances.map f) entropy left.map right.map testCond (thresholdIns.map f)

/-- The best split with every candle replaced. -/
def Best.map (best : Best D) : Best D where
  bestAttr := best.bestAttr
  bestIG := best.bestIG
  thresholdInstance := best.thresholdInstance.map f
  leftInstances := best.leftInstances.map f
  rightInstances := best.rightInstances.map f

/-- No feature sees the difference between a candle and its replacement. -/
def SameFeatures : Prop :=
  ∀ (a b : CandleStick) (i : Int), (f a).compareWith (f b) i = a.compareWith b i

variable {f}

/-- The text of a node shows the replaced candles only if they differ in the
printed cells. -/
theorem inOrder_map (jdk : Jdk)
    (hf : ∀ a, (f a).time = a.time ∧ (f a).high = a.high ∧ (f a).low = a.low ∧
      (f a).close = a.close) (t : DTNode D) : inOrder jdk (t.map f) = inOrder jdk t := by
  induction t with
  | null => rfl
  | node instances entropy left right testCond thresholdIns ihleft ihright =>
      have hnode : nodeText jdk testCond (thresholdIns.map f) =
          nodeText jdk testCond thresholdIns := by
        cases thresholdIns with
        | none => rfl
        | some threshold =>
            obtain ⟨htime, hhigh, hlow, hclose⟩ := hf threshold
            simp only [nodeText, Option.map_some, htime, hhigh, hlow, hclose]
      rw [DTNode.map, inOrder, inOrder, ihleft, ihright, hnode]

/-- Replacing candles makes no node disappear. -/
theorem isNull_map (t : DTNode D) : (t.map f).isNull = t.isNull := by
  cases t with
  | null => rfl
  | node => rfl

variable [Arith D] {entropyOf : List CandleStick → D}

theorem sortBy_map (hf : SameFeatures f) (i : Int) (instances : List CandleStick) :
    sortBy i (instances.map f) = (sortBy i instances).map f := by
  rw [sortBy_eq_sort, sortBy_eq_sort]
  exact Comparator.sort_map _ (fun a b => hf a b i) instances

theorem tryThreshold_map (hentropy : ∀ l, entropyOf (l.map f) = entropyOf l) (entropy : D)
    (i : Int) (instances : List CandleStick) (best : Best D) (thresholdIdx : Nat) :
    tryThreshold entropyOf entropy i (instances.map f) (best.map f) thresholdIdx =
      (tryThreshold entropyOf entropy i instances best thresholdIdx).map f := by
  simp only [tryThreshold, ← List.map_take, ← List.map_drop, hentropy, List.length_map,
    List.getElem?_map]
  rw [show (best.map f).bestIG = best.bestIG from rfl]
  split_ifs
  · rfl
  · rfl

/-- The loops run alike on replaced candles. -/
theorem search_map (hf : SameFeatures f) (hentropy : ∀ l, entropyOf (l.map f) = entropyOf l)
    (entropy : D) (featureIdx : List Int) (instances : List CandleStick) :
    search entropyOf entropy featureIdx (instances.map f) =
      ((search entropyOf entropy featureIdx instances).1.map f,
        (search entropyOf entropy featureIdx instances).2.map f) := by
  have hround : ∀ (st : List CandleStick × Best D) (i : Int),
      tryFeature entropyOf entropy (st.1.map f, st.2.map f) i =
        ((tryFeature entropyOf entropy st i).1.map f,
          (tryFeature entropyOf entropy st i).2.map f) := by
    intro st i
    simp only [tryFeature, sortBy_map hf, List.length_map]
    rw [List.foldl_hom (Best.map f) fun best k =>
      tryThreshold_map hentropy entropy i (sortBy i st.1) best k]
  exact @List.foldl_hom _ _ _ (fun st : List CandleStick × Best D => (st.1.map f, st.2.map f))
    _ _ featureIdx (instances, Best.start) hround

/-- **Growing commutes with a replacement** that neither the features nor the
entropies see. -/
theorem growTree_map (hf : SameFeatures f) (hentropy : ∀ l, entropyOf (l.map f) = entropyOf l)
    (stopsAtOne : Bool) (featureIdx : List Int) (instances : List CandleStick) :
    growTree entropyOf stopsAtOne featureIdx (instances.map f) =
      (growTree entropyOf stopsAtOne featureIdx instances).map f := by
  induction hn : instances.length using Nat.strong_induction_on generalizing instances with
  | _ n ih =>
      rw [growTree, growTree]
      simp only [hentropy, List.length_map, search_map hf hentropy]
      have hattr : ∀ best : Best D, (best.map f).bestAttr = best.bestAttr := fun _ => rfl
      simp only [hattr]
      split_ifs with hstop hnone
      · rfl
      · rfl
      · rcases search_cases entropyOf (entropyOf instances) featureIdx instances with
          h | ⟨c, hc, h⟩
        · exact absurd (congrArg Best.bestAttr h) hnone
        · have hleft := ih c.left.length (hn ▸ cut_left_length_lt hc) c.left rfl
          have hright := ih c.right.length (hn ▸ cut_right_length_lt hc) c.right rfl
          rw [h, DTNode.map]
          congr 1

/-- The answers of the replaced tree are the replaced answers. -/
theorem findMatch_map {g : Int32 → Int32} (hlabel : ∀ a, (f a).label = g a.label)
    (hf : ∀ (a b : CandleStick) (i : Int), a.compareWith (f b) i = a.compareWith b i)
    (t : DTNode D) (cs : CandleStick) :
    findMatch (t.map f) cs = (findMatch t cs).map g := by
  induction t with
  | null => rfl
  | node instances entropy left right testCond thresholdIns ihleft ihright =>
      have hbranch : inLeftBranch testCond (thresholdIns.map f) cs =
          inLeftBranch testCond thresholdIns cs := by
        cases thresholdIns with
        | none => rfl
        | some threshold => simp only [inLeftBranch, Option.map_some, hf]
      rw [DTNode.map, findMatch, findMatch, isNull_map, isNull_map, hbranch]
      split_ifs
      · cases instances with
        | nil => rfl
        | cons a rest => exact congrArg Except.ok (hlabel a)
      · cases inLeftBranch testCond thresholdIns cs with
        | error e => rfl
        | ok goesLeft =>
            cases goesLeft with
            | true => exact ihleft
            | false => exact ihright

end Mapping

/-- Rise becomes drop and drop rise; any other label stays in the third class
but changes. -/
def swapLabel (label : Int32) : Int32 :=
  if label = 1 then -1 else if label = -1 then 1 else if label = 0 then 2 else 0

/-- No label stays where it is. -/
theorem swapLabel_ne (label : Int32) : swapLabel label ≠ label := by
  unfold swapLabel
  split_ifs with h1 h2 h3
  · rw [h1]
    decide
  · rw [h2]
    decide
  · rw [h3]
    decide
  · exact fun h => h3 h.symm

/-- The candle with its label swapped. -/
def swapped (cs : CandleStick) : CandleStick := cs.withLabel (swapLabel cs.label)

section Swapping

variable {D : Type} [Arith D]

/-- Counting a swapped candle is counting the candle with the first two counters
exchanged. -/
theorem add_swapped (counts : LabelCounts) (cs : CandleStick) :
    LabelCounts.add ⟨counts.dropCount, counts.riseCount, counts.constantCount⟩ (swapped cs) =
      ⟨(counts.add cs).dropCount, (counts.add cs).riseCount, (counts.add cs).constantCount⟩ := by
  have hlabel : (swapped cs).label = swapLabel cs.label := rfl
  unfold LabelCounts.add
  rw [hlabel]
  by_cases h1 : cs.label = 1
  · simp [swapLabel, h1]
  · by_cases h2 : cs.label = -1
    · simp [swapLabel, h2]
    · by_cases h3 : cs.label = 0
      · simp [swapLabel, h3]
      · simp [swapLabel, h1, h2, h3]

/-- Swapping exchanges the first two counters. -/
theorem foldl_add_swapped (l : List CandleStick) (counts : LabelCounts) :
    (l.map swapped).foldl LabelCounts.add
        ⟨counts.dropCount, counts.riseCount, counts.constantCount⟩ =
      ⟨(l.foldl LabelCounts.add counts).dropCount, (l.foldl LabelCounts.add counts).riseCount,
        (l.foldl LabelCounts.add counts).constantCount⟩ := by
  induction l generalizing counts with
  | nil => rfl
  | cons cs l ih =>
      rw [List.map_cons, List.foldl_cons, List.foldl_cons, ← ih, add_swapped]

/-- Two terms subtracted from zero may be subtracted in either order. -/
theorem subtractTerm_comm
    (hsub : ∀ a b : D, sub (sub (ofNat 0) a) b = sub (sub (ofNat 0) b) a) (p q : D) :
    subtractTerm (subtractTerm (ofNat 0) p) q = subtractTerm (subtractTerm (ofNat 0) q) p := by
  unfold subtractTerm
  split_ifs
  · rfl
  · rfl
  · rfl
  · exact hsub _ _

/-- So the entropy does not see the swap: it subtracts the same terms, the first two
in the other order. -/
theorem calcEntropy_swapped
    (hsub : ∀ a b : D, sub (sub (ofNat 0) a) b = sub (sub (ofNat 0) b) a)
    (l : List CandleStick) : (calcEntropy (l.map swapped) : D) = calcEntropy l := by
  have hcounts := foldl_add_swapped l ⟨0, 0, 0⟩
  simp only at hcounts
  simp only [calcEntropy, hcounts, List.length_map]
  rw [subtractTerm_comm hsub]

/-- The swapped training list grows the swapped tree. -/
theorem buildDTree_swapped
    (hsub : ∀ a b : D, sub (sub (ofNat 0) a) b = sub (sub (ofNat 0) b) a)
    (featureIdx : List Int) (allTrainingInstances : List CandleStick) :
    (MapReduce.buildDTree featureIdx (allTrainingInstances.map swapped) : DTNode D) =
      (MapReduce.buildDTree featureIdx allTrainingInstances).map swapped := by
  have hsame : SameFeatures swapped := fun _ _ _ => rfl
  exact growTree_map hsame (calcEntropy_swapped hsub) true featureIdx allTrainingInstances

end Swapping

open DecisionTree in
/-- **No stored model determines its classifier.**  Beside any trained tree there
is another one, trained from a non-empty list, with the same features and the
same tree text, and the two label every candle differently. -/
theorem json_never_determines {D : Type} [Arith D]
    (hsub : ∀ a b : D, sub (sub (ofNat 0) a) b = sub (sub (ofNat 0) b) a) (jdk : Jdk)
    (featureIdx : List Int) (allTrainingInstances : List CandleStick)
    (hne : allTrainingInstances ≠ []) :
    ∃ otherInstances, otherInstances ≠ [] ∧
      ((train otherInstances featureIdx : DecisionTree D).toJSON jdk).features =
        ((train allTrainingInstances featureIdx : DecisionTree D).toJSON jdk).features ∧
      ((train otherInstances featureIdx : DecisionTree D).toJSON jdk).tree =
        ((train allTrainingInstances featureIdx : DecisionTree D).toJSON jdk).tree ∧
      ∀ cs, (train otherInstances featureIdx : DecisionTree D).classify [cs] ≠
        (train allTrainingInstances featureIdx : DecisionTree D).classify [cs] := by
  have hroot := buildDTree_swapped hsub featureIdx allTrainingInstances
  refine ⟨allTrainingInstances.map swapped, by simpa using hne, rfl, ?_, ?_⟩
  · have hcells : ∀ a, (swapped a).time = a.time ∧ (swapped a).high = a.high ∧
        (swapped a).low = a.low ∧ (swapped a).close = a.close := fun _ => ⟨rfl, rfl, rfl, rfl⟩
    simp only [toJSON, train]
    rw [hroot, inOrder_map jdk hcells]
  · intro cs
    obtain ⟨x, hx⟩ : ∃ x : CandleStick,
        findMatch (MapReduce.buildDTree featureIdx allTrainingInstances : DTNode D) cs =
          .ok x.label := by
      obtain ⟨x, -, hx⟩ :=
        findMatch_growTree (calcEntropy : List CandleStick → D) true featureIdx hne cs
      exact ⟨x, hx⟩
    have hother : findMatch (MapReduce.buildDTree featureIdx (allTrainingInstances.map swapped) :
        DTNode D) cs = .ok (swapLabel x.label) := by
      have hlabel : ∀ a, (swapped a).label = swapLabel a.label := fun _ => rfl
      have hsame : ∀ (a b : CandleStick) (i : Int),
          a.compareWith (swapped b) i = a.compareWith b i := fun _ _ _ => rfl
      rw [hroot, findMatch_map hlabel hsame, hx]
      rfl
    simp only [classify, classifyTree, train, List.mapM_cons, List.mapM_nil, hother, hx,
      ok_bind]
    intro heq
    exact swapLabel_ne x.label (List.cons.inj (Except.ok.inj heq)).1

/-- Over the reals, and with no number anywhere, the order of two subtractions does
not matter. -/
theorem Exact.sub_sub_comm (a b : Exact) :
    sub (sub (ofNat 0) a) b = sub (sub (ofNat 0) b) a := by
  cases a with
  | none =>
      cases b with
      | none => rfl
      | some y => rfl
  | some x =>
      cases b with
      | none => rfl
      | some y => exact congrArg some (sub_right_comm _ x y)

open DecisionTree in
/-- A tree with a test at its root has such a double too. -/
theorem json_never_determines_pair :
    2 ≤ (train [fallingCandle, risingCandle] [0, 1] : DecisionTree Exact).root.leaves.length ∧
    ∃ otherInstances,
      ((train otherInstances [0, 1] : DecisionTree Exact).toJSON Jdk.sample).tree =
        ((train [fallingCandle, risingCandle] [0, 1] : DecisionTree Exact).toJSON Jdk.sample).tree ∧
      ∀ cs, (train otherInstances [0, 1] : DecisionTree Exact).classify [cs] ≠
        (train [fallingCandle, risingCandle] [0, 1] : DecisionTree Exact).classify [cs] := by
  constructor
  · exact (grown_growTree calcEntropy true [0, 1] _).two_le_leaves (by decide)
      (List.cons_ne_nil _ _) (by simp [IsFeature]) List.mem_cons_self
      (List.mem_cons_of_mem _ List.mem_cons_self) (by decide)
  · obtain ⟨otherInstances, -, -, htree, hlabels⟩ :=
      json_never_determines Exact.sub_sub_comm Jdk.sample [0, 1] [fallingCandle, risingCandle]
        (List.cons_ne_nil _ _)
    exact ⟨otherInstances, htree, hlabels⟩

/-- One instance is a leaf. -/
theorem buildDTree_singleton {D : Type} [Arith D] (featureIdx : List Int) (x : CandleStick) :
    (MapReduce.buildDTree featureIdx [x] : DTNode D) = leafNode [x] (calcEntropy [x]) := by
  rw [MapReduce.buildDTree, growTree]
  simp

open DecisionTree in
/-- A tree trained on a rise and a tree trained on a drop, both on the features 0
and 1, are stored alike. -/
theorem rise_and_drop_stored_alike :
    let rise : DecisionTree Exact := train [risingCandle] [0, 1]
    let drop : DecisionTree Exact := train [fallingCandle] [0, 1]
    (rise.toJSON Jdk.sample).features = (drop.toJSON Jdk.sample).features ∧
      (rise.toJSON Jdk.sample).tree = (drop.toJSON Jdk.sample).tree ∧
      rise.classify [risingCandle] = .ok [1] ∧ drop.classify [risingCandle] = .ok [-1] := by
  have hclassify : ∀ x : CandleStick,
      (train [x] [0, 1] : DecisionTree Exact).classify [risingCandle] = .ok [x.label] := by
    intro x
    simp only [classify, classifyTree, train, buildDTree_singleton, List.mapM_cons,
      List.mapM_nil, findMatch_leafNode]
    rfl
  refine ⟨rfl, ?_, hclassify risingCandle, hclassify fallingCandle⟩
  simp only [toJSON, train, buildDTree_singleton]
  rfl

end Forex
