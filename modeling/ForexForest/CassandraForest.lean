import ForexForest.BoxedInteger
import ForexForest.ForestTraining

/-!
# The figures of the Cassandra program

In this project the label of a candle is an `Integer`, boxed when the candle is
made, and a prediction is boxed again when it is listed.  The two accuracies
that the program reports count the pairs whose references are equal, and the
second one divides by 2000 whatever was tested.

The learner itself only unboxes labels, so the trees and their predictions are
those of the values (`CandleStick.values`); `buildForest_spec` and `main_spec`
say which pairs are counted.
-/

namespace Forex

open Java

namespace Cassandra

/-- A row of the table `forex`. -/
structure ForexRow where
  time : JString
  currency_pair : JString
  high_bid : Double
  low_bid : Double
  close_bid : Double
  label : Int32

/-- The class `CandleStick` of this project. -/
structure CandleStick where
  currencyPair : JString
  time : JString
  high : Double
  low : Double
  close : Double
  label : Integer

/-- The candle with its label unboxed. -/
def CandleStick.values (this : CandleStick) : Forex.CandleStick where
  currencyPair := this.currencyPair
  time := this.time
  high := this.high
  low := this.low
  close := this.close
  label := this.label.intValue

/-- The candle that a row describes. -/
def ForexRow.values (row : ForexRow) : Forex.CandleStick where
  currencyPair := row.currency_pair
  time := row.time
  high := row.high_bid
  low := row.low_bid
  close := row.close_bid
  label := row.label

/-- `new CandleStick(row.getString("currency_pair"), ...)`: `getInt` is boxed. -/
def newCandleStick (row : ForexRow) : Alloc CandleStick := do
  let label ← Integer.valueOf row.label
  return ⟨row.currency_pair, row.time, row.high_bid, row.low_bid, row.close_bid, label⟩

section Program

variable {D : Type} [Arith D] (shuffle shuffleFeatures : Nat → Shuffle)

/-- `classify` of a tree: the predicted label is unboxed into an `int` and boxed
again. -/
def classifyTree (root : DTNode D) (testingInstances : List CandleStick) :
    Alloc (List Integer) :=
  testingInstances.mapM fun cs => do
    let predictedLabel ← StateT.lift (findMatch root cs.values)
    Integer.valueOf predictedLabel

/-- `testCase.getLabel() == label`, on two references. -/
def sameLabel (testCase : CandleStick) (label : Integer) : Bool := testCase.label = label

/-- The body of the loop of `buildForest`. -/
def buildRound (TOTAL_INSTANCES : Int32) (st : ForestState CandleStick D) (i : Nat) :
    Alloc (ForestState CandleStick D) := do
  let instances := (shuffle i).apply st.instances
  let (trainInstances, testInstances) ← StateT.lift (cutInstances TOTAL_INSTANCES instances)
  let totalFeatures := (shuffleFeatures i).apply st.totalFeatures
  let usedFeatures ← StateT.lift (FeatureView.firstTwo totalFeatures)
  let dt : Forest.DecisionTree D :=
    ⟨buildDTree (usedFeatures.read totalFeatures) (trainInstances.map CandleStick.values),
      usedFeatures⟩
  let predictedLabels ← classifyTree dt.root testInstances
  let (matchCount, j) ← StateT.lift (countMatches sameLabel predictedLabels testInstances)
  let accuracy := quotient matchCount j
  return ⟨instances, totalFeatures, st.trees ++ [dt], st.stats ++ [accuracy]⟩

/-- `buildForest` on a new forest. -/
def buildForest (N : Int32) (instances : List CandleStick) :
    Alloc (ForestState CandleStick D) :=
  (List.range N.toInt.toNat).foldlM
    (buildRound shuffle shuffleFeatures (Int32.ofNat instances.length))
    ⟨instances, [0, 1, 2, 3], [], []⟩

/-- The body of the inner loop of `countVotes`. -/
def countVote (treesPredictedLabels : List (List Integer)) (k : Nat)
    (votes : Entries Integer Nat) (i : Nat) : Except Exception (Entries Integer Nat) := do
  let labelsPerTree ← listGet treesPredictedLabels i
  let label ← listGet labelsPerTree k
  return boxedVote votes label

/-- The body of the outer loop of `countVotes`; the key of the winning entry is
returned, not a new box. -/
def countInstance (order : IterationOrder) (N : Nat)
    (treesPredictedLabels : List (List Integer)) (k : Nat) : Except Exception Integer := do
  let votes ← (List.range N).foldlM (countVote treesPredictedLabels k) []
  match maxEntry (order.boxedEntrySet votes) with
  | none => .error .nullPointer
  | some max => return max.1

/-- `countVotes`. -/
def countVotes (order : IterationOrder) (N : Nat) (treesPredictedLabels : List (List Integer)) :
    Except Exception (List Integer) := do
  let labelsOfFirst ← listGet treesPredictedLabels 0
  (List.range labelsOfFirst.length).mapM (countInstance order N treesPredictedLabels)

/-- `classify` of the forest. -/
def classify (order : IterationOrder) (N : Nat) (trees : List (Forest.DecisionTree D))
    (testingInstances : List CandleStick) : Alloc (List Integer) := do
  let treesPredictedLabels ← (List.range N).mapM fun i => do
    let tree ← StateT.lift (listGet trees i)
    classifyTree tree.root testingInstances
  StateT.lift (countVotes order N treesPredictedLabels)

/-- The two lists that `main` fills, and its counter. -/
structure Loaded where
  trainingInstances : List CandleStick
  testingInstances : List CandleStick
  i : Nat

/-- The body of the loading loop of `main`. -/
def loadRow (st : Loaded) (row : ForexRow) : Alloc Loaded := do
  let cs ← newCandleStick row
  if st.i < 8000 then
    return { st with trainingInstances := st.trainingInstances ++ [cs], i := st.i + 1 }
  else
    return { st with testingInstances := st.testingInstances ++ [cs], i := st.i + 1 }

/-- The figures that `main` stores. -/
structure Figures where
  stats : List (Option ℚ)
  precision : Option ℚ

variable (D) in
/-- `HW4.main`, on the table in the order of the query. -/
def main (order : IterationOrder) (N : Int32) (forex : List ForexRow) : Alloc Figures := do
  let loaded ← (forex.take 10000).foldlM loadRow ⟨[], [], 0⟩
  let rf : ForestState CandleStick D ←
    buildForest shuffle shuffleFeatures N loaded.trainingInstances
  let predictedLabels ← classify order N.toInt.toNat rf.trees loaded.testingInstances
  let (matchCount, _) ←
    StateT.lift (countMatches sameLabel predictedLabels loaded.testingInstances)
  let precision := quotient matchCount 2000
  return ⟨rf.stats, precision⟩

end Program

/-- A new candle stick holds a new box of its label, and is the row otherwise. -/
theorem newCandleStick_spec (row : ForexRow) (next : Nat) : ∃ cs after,
    newCandleStick row next = .ok (cs, after) ∧ cs.values = row.values ∧
      cs.label.Before after ∧ next ≤ after := by
  obtain ⟨label, after, hlabel, hvalue, -, hbefore, hafter⟩ :=
    Integer.valueOf_spec row.label next
  refine ⟨_, after, alloc_bind hlabel, ?_, hbefore, hafter⟩
  rw [CandleStick.values, ForexRow.values, hvalue]

/-- One round of the loading loop makes one candle. -/
theorem loadRow_spec (candles : List CandleStick) (row : ForexRow) (next : Nat) :
    ∃ cs after, loadRow ⟨candles.take 8000, candles.drop 8000, candles.length⟩ row next =
        .ok (⟨(candles ++ [cs]).take 8000, (candles ++ [cs]).drop 8000,
          (candles ++ [cs]).length⟩, after) ∧
      (row.values = cs.values ∧ cs.label.Before after) ∧ next ≤ after := by
  obtain ⟨cs, after, hcs, hsame, hlabel, hafter⟩ := newCandleStick_spec row next
  refine ⟨cs, after, ?_, ⟨hsame.symm, hlabel⟩, hafter⟩
  by_cases hlt : candles.length < 8000
  · obtain ⟨htake, hdrop⟩ := concat_front hlt cs
    rw [loadRow, alloc_bind hcs, if_pos hlt, htake, hdrop, List.length_append]
    rfl
  · obtain ⟨htake, hdrop⟩ := concat_back (not_lt.mp hlt) cs
    rw [loadRow, alloc_bind hcs, if_neg hlt, htake, hdrop, List.length_append]
    rfl

/-- The loading loop makes one candle per row, all of them before training
starts. -/
theorem load_spec (rows : List ForexRow) (next : Nat) :
    ∃ (candles : List CandleStick) (after : Nat),
    rows.foldlM loadRow ⟨[], [], 0⟩ next =
      .ok (⟨candles.take 8000, candles.drop 8000, candles.length⟩, after) ∧
    candles.map CandleStick.values = rows.map ForexRow.values ∧
    ∀ cs ∈ candles, cs.label.Before after := by
  obtain ⟨candles, after, hloop, hall, -⟩ := alloc_foldlM
    (fun _ _ _ _ hle h => ⟨h.1, h.2.mono hle⟩)
    (fun candles row _ next => loadRow_spec candles row next) (l := rows) next
  refine ⟨candles, after, hloop, ?_, fun cs hcs => ?_⟩
  · exact (map_eq_of_forall₂ (hall.imp fun _ _ h => h.1)).symm
  · obtain ⟨row, -, -, hbefore⟩ := exists_of_forall₂ hall hcs
    exact hbefore

section Figures

variable {D : Type} [Arith D]

/-- Predicting boxes one label for each candle. -/
theorem classifyTree_spec {root : DTNode D} {testingInstances : List CandleStick}
    (hanswers : ∀ cs ∈ testingInstances.map CandleStick.values, ∃ label,
      findMatch root cs = .ok label) (next : Nat) :
    ∃ labels after, classifyTree root testingInstances next = .ok (labels, after) ∧
      labels.map Integer.intValue =
        (testingInstances.map CandleStick.values).map (RandomForest.predicted root) ∧
      (∀ label ∈ labels, label.From next) ∧ next ≤ after := by
  have hround : ∀ cs ∈ testingInstances, ∀ next, ∃ label after,
      (do
        let predictedLabel ← StateT.lift (findMatch root cs.values)
        Integer.valueOf predictedLabel : Alloc Integer) next = .ok (label, after) ∧
      (RandomForest.predicted root cs.values = label.intValue ∧ label.From next) ∧
      next ≤ after := by
    intro cs hcs next
    have hfind := RandomForest.findMatch_predicted (hanswers _ (List.mem_map_of_mem hcs))
    obtain ⟨label, after, hlabel, hvalue, hfrom, -, hafter⟩ :=
      Integer.valueOf_spec (RandomForest.predicted root cs.values) next
    exact ⟨label, after, (alloc_lift hfind).trans hlabel, ⟨hvalue.symm, hfrom⟩, hafter⟩
  obtain ⟨labels, after, hlabels, hall, hafter⟩ :=
    alloc_mapM (fun _ _ _ _ hle h => ⟨h.1, h.2.mono hle⟩) hround next
  refine ⟨labels, after, hlabels, ?_, fun label hlabel => ?_, hafter⟩
  · have hvalues := hall.imp fun _ _ h => h.1
    rw [List.map_map]
    exact (map_eq_of_forall₂ hvalues).symm
  · obtain ⟨cs, -, -, hfrom⟩ := exists_of_forall₂ hall hlabel
    exact hfrom

/-- A tree trained on nothing fails on the first test instance. -/
theorem classifyTree_nil {stopsAtOne : Bool} {featureIdx : List Int}
    {testingInstances : List CandleStick} (hne : testingInstances ≠ []) (next : Nat) :
    classifyTree (growTree calcEntropy stopsAtOne featureIdx [] : DTNode D) testingInstances next =
      .error .indexOutOfBounds := by
  obtain ⟨cs, rest, rfl⟩ := List.exists_cons_of_ne_nil hne
  rw [growTree_nil, classifyTree, List.mapM_cons, findMatch_leafNode]
  rfl

/-- Counting equal references counts the equal labels that have a shared box. -/
theorem countMatches_boxed {testingInstances : List CandleStick} {labels : List Integer}
    {next : Nat} (hlength : labels.length = testingInstances.length)
    (hbefore : ∀ cs ∈ testingInstances, cs.label.Before next)
    (hfrom : ∀ label ∈ labels, label.From next) :
    countMatches sameLabel labels testingInstances =
      .ok (((testingInstances.map CandleStick.values).zip (labels.map Integer.intValue)).countP
        fun pair => pair.1.label = pair.2 ∧ IsCached pair.1.label, testingInstances.length) := by
  rw [countMatches_eq sameLabel hlength, List.zip_map, List.countP_map]
  congr 2
  apply List.countP_congr
  intro pair hpair
  obtain ⟨hcs, hlabel⟩ := List.of_mem_zip hpair
  have heq := Integer.eq_iff (hbefore pair.1 hcs) (hfrom pair.2 hlabel)
  change decide (pair.1.label = pair.2) = true ↔
    decide (pair.1.label.intValue = pair.2.intValue ∧ IsCached pair.1.label.intValue) = true
  rwa [decide_eq_true_iff, decide_eq_true_iff]

/-- The number of instances whose label the tree predicts and whose label has a
shared box. -/
def sharedCount (root : DTNode D) (instances : List Forex.CandleStick) : Nat :=
  instances.countP fun cs => findMatch root cs = .ok cs.label ∧ IsCached cs.label

/-- The matches that a tree is credited with are counted on the values of the
candles. -/
theorem countMatches_classified {root : DTNode D} {testingInstances : List CandleStick}
    {labels : List Integer} {next : Nat}
    (hanswers : ∀ cs ∈ testingInstances.map CandleStick.values, ∃ label,
      findMatch root cs = .ok label)
    (hlabels : labels.map Integer.intValue =
      (testingInstances.map CandleStick.values).map (RandomForest.predicted root))
    (hbefore : ∀ cs ∈ testingInstances, cs.label.Before next)
    (hfrom : ∀ label ∈ labels, label.From next) :
    countMatches sameLabel labels testingInstances =
      .ok (sharedCount root (testingInstances.map CandleStick.values),
        testingInstances.length) := by
  have hlength : labels.length = testingInstances.length := by
    simpa using congrArg List.length hlabels
  rw [countMatches_boxed hlength hbefore hfrom, hlabels, sharedCount]
  congr 2
  apply RandomForest.countP_predicted hanswers
  intro cs label hfind
  simp only [hfind, decide_eq_true_eq, Except.ok.injEq, eq_comm (a := label)]

section Rounds

variable (shuffle shuffleFeatures : Nat → Shuffle)

/-- The root of the `i`-th tree. -/
def treeOf (instances : List Forex.CandleStick) (i : Nat) : DTNode D :=
  buildDTree (RandomForest.featuresOf shuffleFeatures i)
    (RandomForest.trainPart shuffle instances i)

/-- The accuracy that is recorded for the `i`-th tree. -/
def recordedAccuracy (D : Type) [Arith D] (instances : List Forex.CandleStick) (i : Nat) :
    Option ℚ :=
  quotient (sharedCount (treeOf (D := D) shuffle shuffleFeatures instances i)
    (RandomForest.heldOut shuffle instances i)) (RandomForest.heldOut shuffle instances i).length

/-- The state after `k` rounds. -/
def stateAfter (D : Type) [Arith D] (instances : List CandleStick) (k : Nat) :
    ForestState CandleStick D where
  instances := afterShuffles shuffle instances k
  totalFeatures := afterShuffles shuffleFeatures [0, 1, 2, 3] k
  trees := (List.range k).map fun i =>
    ⟨treeOf shuffle shuffleFeatures (instances.map CandleStick.values) i, ⟨0, 2⟩⟩
  stats := (List.range k).map
    (recordedAccuracy shuffle shuffleFeatures D (instances.map CandleStick.values))

/-- The roots of the trees so far are those of the rounds on values. -/
theorem roots_stateAfter (instances : List CandleStick) (k : Nat) :
    (stateAfter shuffle shuffleFeatures D instances k).trees.map Forest.DecisionTree.root =
      (List.range k).map (treeOf shuffle shuffleFeatures (instances.map CandleStick.values)) := by
  rw [stateAfter, List.map_map]
  rfl

/-- Every round adds one tree. -/
theorem length_trees_stateAfter (instances : List CandleStick) (k : Nat) :
    (stateAfter shuffle shuffleFeatures D instances k).trees.length = k := by
  rw [stateAfter, List.length_map, List.length_range]

/-- Except for a single instance, the trees answer any candles if they were trained
on something or there are none. -/
theorem treeOf_answers {instances : List Forex.CandleStick} (hone : instances.length ≠ 1)
    {candles : List Forex.CandleStick} (h : instances = [] → candles = []) (i : Nat) :
    ∀ cs ∈ candles, ∃ label,
      findMatch (treeOf (D := D) shuffle shuffleFeatures instances i) cs = .ok label := by
  apply growTree_answers
  intro hnil
  have hzero := congrArg List.length hnil
  rw [RandomForest.trainPart, List.length_take, length_afterShuffles, List.length_nil] at hzero
  apply h
  rw [← List.length_eq_zero_iff]
  omega

/-- **One round.**  The `k`-th round adds the tree of the values and the fraction
of the held-out instances that share the box of a correct prediction. -/
theorem buildRound_spec {instances : List CandleStick} (hone : instances.length ≠ 1)
    (hn : instances.length < 2 ^ 30) {next : Nat}
    (hbefore : ∀ cs ∈ instances, cs.label.Before next) (k : Nat) :
    ∃ after, buildRound shuffle shuffleFeatures (Int32.ofNat instances.length)
        (stateAfter shuffle shuffleFeatures D instances k) k next =
      .ok (stateAfter shuffle shuffleFeatures D instances (k + 1), after) ∧ next ≤ after := by
  set shuffled := afterShuffles shuffle instances (k + 1) with hshuffled
  have hlength : shuffled.length = instances.length := length_afterShuffles _ _ _
  have htrain : (shuffled.take (2 * instances.length / 3)).map CandleStick.values =
      RandomForest.trainPart shuffle (instances.map CandleStick.values) k := by
    rw [RandomForest.trainPart, afterShuffles_map, List.length_map, List.map_take]
  have htest : (shuffled.drop (2 * instances.length / 3)).map CandleStick.values =
      RandomForest.heldOut shuffle (instances.map CandleStick.values) k := by
    rw [RandomForest.heldOut, afterShuffles_map, List.length_map, List.map_drop]
  have hview : FeatureView.firstTwo (afterShuffles shuffleFeatures [0, 1, 2, 3] (k + 1)) =
      .ok ⟨0, 2⟩ :=
    FeatureView.firstTwo_of_length (length_afterShuffles _ _ _)
  have hanswers : ∀ cs ∈ (shuffled.drop (2 * instances.length / 3)).map CandleStick.values,
      ∃ label, findMatch (treeOf (D := D) shuffle shuffleFeatures
        (instances.map CandleStick.values) k) cs = .ok label := by
    apply treeOf_answers
    · rwa [List.length_map]
    · intro hnil
      rw [List.map_eq_nil_iff] at hnil
      rw [List.map_eq_nil_iff, List.drop_eq_nil_iff, hlength, hnil]
      exact Nat.zero_le _
  obtain ⟨labels, after, hlabels, hvalues, hboxes, hafter⟩ := classifyTree_spec hanswers next
  have hheld : ∀ cs ∈ shuffled.drop (2 * instances.length / 3), cs.label.Before next := by
    intro cs hcs
    exact hbefore cs ((afterShuffles_perm shuffle instances (k + 1)).mem_iff.mp
      (List.mem_of_mem_drop hcs))
  have hcount := countMatches_classified hanswers hvalues hheld hboxes
  refine ⟨after, ?_, hafter⟩
  refine (alloc_lift (cutInstances_eq hn hlength)).trans ?_
  refine (alloc_lift hview).trans ?_
  rw [htrain]
  refine (alloc_bind hlabels).trans ?_
  refine (alloc_lift hcount).trans ?_
  rw [htest, ← List.length_map CandleStick.values, htest]
  simp only [stateAfter, List.range_succ, List.map_append]
  rfl

theorem buildForest_spec (N : Int32) {instances : List CandleStick}
    (hone : instances.length ≠ 1) (hn : instances.length < 2 ^ 30) {next : Nat}
    (hbefore : ∀ cs ∈ instances, cs.label.Before next) :
    ∃ after, buildForest shuffle shuffleFeatures N instances next =
      .ok (stateAfter shuffle shuffleFeatures D instances N.toInt.toNat, after) ∧
      next ≤ after := by
  rw [buildForest]
  generalize N.toInt.toNat = k
  induction k with
  | zero => exact ⟨next, rfl, le_rfl⟩
  | succ k ih =>
      obtain ⟨middle, hloop, hmiddle⟩ := ih
      obtain ⟨after, hround, hafter⟩ := buildRound_spec (D := D) shuffle shuffleFeatures hone hn
        (fun cs hcs => (hbefore cs hcs).mono hmiddle) k
      refine ⟨after, ?_, hmiddle.trans hafter⟩
      rw [List.range_succ, List.foldlM_append]
      refine (alloc_bind hloop).trans ?_
      rw [List.foldlM_cons]
      exact alloc_bind hround

/-- A single instance leaves nothing to train on. -/
theorem buildForest_fails {N : Int32} (hN : 0 < N.toInt) {instances : List CandleStick}
    (hone : instances.length = 1) (next : Nat) (result : ForestState CandleStick D × Nat) :
    buildForest shuffle shuffleFeatures N instances next ≠ .ok result := by
  intro h
  obtain ⟨k, hk⟩ : ∃ k, N.toInt.toNat = k + 1 := ⟨N.toInt.toNat - 1, by omega⟩
  rw [buildForest, hk, List.range_succ_eq_map, List.foldlM_cons] at h
  obtain ⟨first, hfirst, -⟩ := bind_eq_ok h
  have hlength : ((shuffle 0).apply instances).length = 1 := by rw [Shuffle.length_apply, hone]
  have hparts := cutInstances_eq (by omega) hlength
  have hview : FeatureView.firstTwo ((shuffleFeatures 0).apply [0, 1, 2, 3]) = .ok ⟨0, 2⟩ :=
    FeatureView.firstTwo_of_length (Shuffle.length_apply _ _)
  rw [hone] at hfirst
  have hafterCut := (alloc_lift hparts).symm.trans hfirst
  have hafterView := (alloc_lift hview).symm.trans hafterCut
  obtain ⟨predictedLabels, hpredicted, -⟩ := bind_eq_ok hafterView
  have hne : (shuffle 0).apply instances ≠ [] := List.ne_nil_of_length_pos (by omega)
  cases hpredicted.symm.trans (classifyTree_nil hne next)

end Rounds

end Figures

end Cassandra

end Forex
