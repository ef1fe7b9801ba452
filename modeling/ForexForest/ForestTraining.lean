import ForexForest.JavaLists
import ForexForest.RandomForest

/-!
# Building the forest

Each round of `buildForest` shuffles the instances and the features, grows a
tree on the first two thirds of the instances with the first two features, and
records the fraction of the other instances that the tree labels correctly.

`buildRound_eq` says what one round does and `buildForest_eq` what all of them
do, for every number of instances whose double fits in an `int`.  With one
instance nothing is left to train on, and from `2 ^ 30` instances on the cut
wraps around: there the first round already fails (`buildRound_fails`).
-/

namespace Forex

open Java

/-- `(double) m / (double) n`, exactly; `0 / 0` is not a number. -/
def quotient (m n : Nat) : Option ℚ := if n = 0 then none else some (m / n)

section Counting

variable {ι L : Type}

/-- The body of the counting loop, on `matchCount` and `j`, with the comparison
of an instance's label with a predicted one as a parameter. -/
def countMatch (sameLabel : ι → L → Bool) (predictedLabels : List L) (counters : Nat × Nat)
    (ins : ι) : Except Exception (Nat × Nat) := do
  let label ← listGet predictedLabels counters.2
  return (if sameLabel ins label then counters.1 + 1 else counters.1, counters.2 + 1)

/-- The counting loop. -/
def countMatches (sameLabel : ι → L → Bool) (predictedLabels : List L) (instances : List ι) :
    Except Exception (Nat × Nat) :=
  instances.foldlM (countMatch sameLabel predictedLabels) (0, 0)

/-- With a label for every instance the loop counts the equal pairs. -/
theorem countMatches_eq (sameLabel : ι → L → Bool) {predictedLabels : List L}
    {instances : List ι} (hlength : predictedLabels.length = instances.length) :
    countMatches sameLabel predictedLabels instances =
      .ok ((instances.zip predictedLabels).countP fun pair => sameLabel pair.1 pair.2,
        instances.length) := by
  have hloop : ∀ (rest : List ι) (matchCount j : Nat), j + rest.length = predictedLabels.length →
      rest.foldlM (countMatch sameLabel predictedLabels) (matchCount, j) =
        .ok (matchCount + (rest.zip (predictedLabels.drop j)).countP
          fun pair => sameLabel pair.1 pair.2, j + rest.length) := by
    intro rest
    induction rest with
    | nil => exact fun matchCount j _ => rfl
    | cons ins rest ih =>
        intro matchCount j hj
        have hlt : j < predictedLabels.length := by
          rw [← hj, List.length_cons]
          omega
        have hrest : j + 1 + rest.length = predictedLabels.length := by
          rw [← hj, List.length_cons]
          omega
        rw [List.foldlM_cons, countMatch, listGet_of_lt hlt, ok_bind]
        refine (ih _ _ hrest).trans ?_
        rw [List.drop_eq_getElem_cons hlt, List.zip_cons_cons, List.countP_cons, List.length_cons]
        congr 2
        · split_ifs
          · omega
          · rfl
        · omega
  have hall := hloop instances 0 0 (by rw [Nat.zero_add, hlength])
  rwa [Nat.zero_add, Nat.zero_add, List.drop_zero] at hall

end Counting

section Cutting

variable {ι : Type}

/-- `2*TOTAL_INSTANCES/3`. -/
def cutIndex (TOTAL_INSTANCES : Int32) : Int32 := 2 * TOTAL_INSTANCES / 3

/-- The two lists `trainInstances` and `testInstances`. -/
def cutInstances (TOTAL_INSTANCES : Int32) (instances : List ι) :
    Except Exception (List ι × List ι) := do
  let trainInstances ← subList instances 0 (cutIndex TOTAL_INSTANCES)
  let testInstances ← subList instances (cutIndex TOTAL_INSTANCES) TOTAL_INSTANCES
  return (trainInstances, testInstances)

/-- The cut index is two thirds of the size, unless doubling the size overflows. -/
theorem toInt_cutIndex {n : Nat} (hn : n < 2 ^ 31) :
    (cutIndex (Int32.ofNat n)).toInt = ((2 * n : Int).bmod (2 ^ 32)).tdiv 3 := by
  have hthree : (3 : Int32) ≠ -1 := by decide
  rw [cutIndex, Int32.toInt_div_of_ne_right _ _ hthree, Int32.toInt_mul,
    Int32.toInt_ofNat_of_lt hn]
  rfl

/-- A list whose double length fits in an `int` is cut at two thirds. -/
theorem cutInstances_eq {n : Nat} (hn : n < 2 ^ 30) {instances : List ι}
    (hlength : instances.length = n) :
    cutInstances (Int32.ofNat n) instances =
      .ok (instances.take (2 * n / 3), instances.drop (2 * n / 3)) := by
  have hcut : (cutIndex (Int32.ofNat n)).toInt = (2 * n / 3 : Nat) := by
    rw [toInt_cutIndex (by omega), Int.bmod_eq_of_le (by omega) (by omega)]
    rfl
  have htotal : (Int32.ofNat n).toInt = n := Int32.toInt_ofNat_of_lt (by omega)
  rw [cutInstances, subList_of_le (a := 0) rfl hcut (Nat.zero_le _) (by omega), ok_bind,
    subList_of_le hcut htotal (by omega) hlength.ge, ok_bind, List.drop_zero,
    List.take_of_length_le hlength.le]
  rfl

/-- From `2 ^ 30` elements on the product wraps around, and no front is left. -/
theorem cutInstances_wrapped {n : Nat} (hn : 2 ^ 30 ≤ n) (hn' : n < 2 ^ 31) {instances : List ι}
    (hlength : instances.length = n) {parts : List ι × List ι}
    (h : cutInstances (Int32.ofNat n) instances = .ok parts) :
    parts = ([], instances) := by
  have hnegative : (2 * n : Int).bmod (2 ^ 32) < 0 :=
    (Int.bmod_neg_iff (by omega) (by omega)).mpr (Or.inr (by omega))
  have hcut : (cutIndex (Int32.ofNat n)).toInt ≤ 0 := by
    have hthird : ((2 * n : Int).bmod (2 ^ 32)).tdiv 3 ≤ Int.tdiv 0 3 :=
      Int.tdiv_le_tdiv (by omega) hnegative.le
    rwa [toInt_cutIndex hn', ← Int.zero_tdiv 3]
  have htotal : (Int32.ofNat n).toInt = n := Int32.toInt_ofNat_of_lt hn'
  obtain ⟨trainInstances, htrain, h⟩ := bind_eq_ok h
  obtain ⟨testInstances, htest, h⟩ := bind_eq_ok h
  rcases hcut.lt_or_eq with hlt | hzero
  · -- a negative end of the front is an illegal argument
    rw [subList, if_neg (by decide), if_neg (by omega),
      if_pos (by rwa [Int32.toInt_zero])] at htrain
    cases htrain
  · rw [subList_of_le (a := 0) (b := 0) rfl hzero le_rfl (Nat.zero_le _)] at htrain
    rw [subList_of_le (a := 0) hzero htotal (Nat.zero_le _) hlength.ge, List.drop_zero,
      List.take_of_length_le hlength.le] at htest
    rw [← Except.ok.inj h, ← Except.ok.inj htrain, ← Except.ok.inj htest]
    rfl

/-- Only a single element leaves nothing in front of the cut and something
behind it. -/
theorem drop_eq_nil_of_take {n : Nat} (hone : n ≠ 1) {instances : List ι}
    (hlength : instances.length = n) (h : instances.take (2 * n / 3) = []) :
    instances.drop (2 * n / 3) = [] := by
  have hzero := congrArg List.length h
  rw [List.length_take, hlength, List.length_nil] at hzero
  rw [List.drop_eq_nil_iff]
  omega

end Cutting

/-- `totalFeatures.subList(fromIndex, toIndex)`: a view, read through to the list
behind it. -/
structure FeatureView where
  fromIndex : Nat
  toIndex : Nat
deriving DecidableEq

namespace FeatureView

/-- The features that the view shows while the list behind it is as given. -/
def read (this : FeatureView) (totalFeatures : List Int) : List Int :=
  (totalFeatures.take this.toIndex).drop this.fromIndex

/-- `totalFeatures.subList(0, 2)`. -/
def firstTwo (totalFeatures : List Int) : Except Exception FeatureView :=
  if totalFeatures.length < 2 then .error .indexOutOfBounds else .ok ⟨0, 2⟩

/-- Of four features the first two can be viewed. -/
theorem firstTwo_of_length {totalFeatures : List Int} (h : totalFeatures.length = 4) :
    firstTwo totalFeatures = .ok ⟨0, 2⟩ := by
  rw [firstTwo, h]
  rfl

end FeatureView

namespace Forest

/-- The class `DecisionTree` of the forest project. -/
structure DecisionTree (D : Type) where
  root : DTNode D
  featureIdx : FeatureView

end Forest

/-- What `buildForest` changes: the list that it shuffles, the static list of
features, and the two lists that it fills. -/
structure ForestState (ι D : Type) where
  instances : List ι
  totalFeatures : List Int
  trees : List (Forest.DecisionTree D)
  stats : List (Option ℚ)

namespace RandomForest

section Building

variable {D : Type} [Arith D] (shuffle shuffleFeatures : Nat → Shuffle)

/-- The body of the loop of `buildForest`. -/
def buildRound (TOTAL_INSTANCES : Int32) (st : ForestState CandleStick D) (i : Nat) :
    Except Exception (ForestState CandleStick D) := do
  let instances := (shuffle i).apply st.instances
  let (trainInstances, testInstances) ← cutInstances TOTAL_INSTANCES instances
  let totalFeatures := (shuffleFeatures i).apply st.totalFeatures
  let usedFeatures ← FeatureView.firstTwo totalFeatures
  let dt : Forest.DecisionTree D :=
    ⟨Forest.buildDTree (usedFeatures.read totalFeatures) trainInstances, usedFeatures⟩
  let predictedLabels ← classifyTree dt.root testInstances
  let (matchCount, j) ←
    countMatches (fun ins label => ins.label == label) predictedLabels testInstances
  let accuracy := quotient matchCount j
  return ⟨instances, totalFeatures, st.trees ++ [dt], st.stats ++ [accuracy]⟩

/-- `buildForest` on a new forest; the outcomes of the shuffles are parameters. -/
def buildForest (N : Int32) (instances : ArrayList CandleStick) :
    Except Exception (ForestState CandleStick D) :=
  (List.range N.toInt.toNat).foldlM (buildRound shuffle shuffleFeatures instances.size)
    ⟨instances.elements, [0, 1, 2, 3], [], []⟩

/-- The features of the `i`-th tree while it is trained. -/
def featuresOf (i : Nat) : List Int :=
  (FeatureView.mk 0 2).read (afterShuffles shuffleFeatures [0, 1, 2, 3] (i + 1))

/-- The instances that the `i`-th tree is trained on. -/
def trainPart (instances : List CandleStick) (i : Nat) : List CandleStick :=
  (afterShuffles shuffle instances (i + 1)).take (2 * instances.length / 3)

/-- The third of the instances that is held out from the `i`-th tree. -/
def heldOut (instances : List CandleStick) (i : Nat) : List CandleStick :=
  (afterShuffles shuffle instances (i + 1)).drop (2 * instances.length / 3)

/-- The `i`-th tree. -/
def treeOf (instances : List CandleStick) (i : Nat) : Forest.DecisionTree D :=
  ⟨Forest.buildDTree (featuresOf shuffleFeatures i) (trainPart shuffle instances i), ⟨0, 2⟩⟩

/-- The number of instances whose label the tree predicts. -/
def correctCount (root : DTNode D) (instances : List CandleStick) : Nat :=
  instances.countP fun cs => findMatch root cs = .ok cs.label

/-- The accuracy of the `i`-th tree. -/
def accuracyOf (instances : List CandleStick) (i : Nat) : Option ℚ :=
  quotient (correctCount (treeOf (D := D) shuffle shuffleFeatures instances i).root
    (heldOut shuffle instances i)) (heldOut shuffle instances i).length

end Building

end RandomForest

section Trees

variable {D : Type} [Arith D] {entropyOf : List CandleStick → D} {stopsAtOne : Bool}
  {featureIdx : List Int}

/-- A tree trained on nothing holds nothing. -/
theorem growTree_nil :
    growTree entropyOf stopsAtOne featureIdx [] = leafNode [] (entropyOf []) := by
  have hgrown := grown_growTree entropyOf stopsAtOne featureIdx []
  generalize growTree entropyOf stopsAtOne featureIdx [] = root at hgrown
  cases hgrown with
  | pure => rfl
  | exhausted => rw [(search_perm (entropyOf []) []).eq_nil]
  | split hstop hc =>
      obtain ⟨-, hperm, -, -, hlt⟩ := mem_cuts hc
      rw [hperm.eq_nil] at hlt
      exact absurd hlt (Nat.not_lt_zero _)

/-- A tree answers its test instances if it was trained on something, or if there
are none. -/
theorem growTree_answers {trainInstances testInstances : List CandleStick}
    (h : trainInstances = [] → testInstances = []) :
    ∀ cs ∈ testInstances, ∃ label,
      findMatch (growTree entropyOf stopsAtOne featureIdx trainInstances) cs = .ok label := by
  intro cs hcs
  have hne : trainInstances ≠ [] := by
    intro hnil
    rw [h hnil] at hcs
    exact absurd hcs List.not_mem_nil
  obtain ⟨x, -, hx⟩ := findMatch_growTree entropyOf stopsAtOne featureIdx hne cs
  exact ⟨x.label, hx⟩

/-- A tree that answers its test instances predicts one label for each. -/
theorem classifyTree_eq {root : DTNode D} {testInstances : List CandleStick}
    (hanswers : ∀ cs ∈ testInstances, ∃ label, findMatch root cs = .ok label) :
    classifyTree root testInstances = .ok (testInstances.map (RandomForest.predicted root)) :=
  mapM_eq_ok fun cs hcs => RandomForest.findMatch_predicted (hanswers cs hcs)

/-- A tree trained on nothing fails on the first test instance. -/
theorem classifyTree_growTree_nil {testInstances : List CandleStick} (h : testInstances ≠ []) :
    classifyTree (growTree entropyOf stopsAtOne featureIdx []) testInstances =
      .error .indexOutOfBounds := by
  obtain ⟨cs, rest, rfl⟩ := List.exists_cons_of_ne_nil h
  rw [growTree_nil, classifyTree, List.mapM_cons, findMatch_leafNode]
  rfl

end Trees

namespace RandomForest

section Rounds

variable {D : Type} [Arith D] (shuffle shuffleFeatures : Nat → Shuffle) {n : Nat}

/-- Counting pairs of an instance and its predicted label is counting instances. -/
theorem countP_predicted {root : DTNode D} {testInstances : List CandleStick}
    (hanswers : ∀ cs ∈ testInstances, ∃ label, findMatch root cs = .ok label)
    {p : CandleStick × Int32 → Bool} {q : CandleStick → Bool}
    (hpq : ∀ cs label, findMatch root cs = .ok label → (p (cs, label) = true ↔ q cs = true)) :
    (testInstances.zip (testInstances.map (predicted root))).countP p = testInstances.countP q := by
  rw [← List.map_prod_left_eq_zip, List.countP_map]
  apply List.countP_congr
  intro cs hcs
  exact hpq cs _ (findMatch_predicted (hanswers cs hcs))

/-- The counting loop counts the instances whose label the tree predicts. -/
theorem countMatches_predicted {root : DTNode D} {testInstances : List CandleStick}
    (hanswers : ∀ cs ∈ testInstances, ∃ label, findMatch root cs = .ok label) :
    countMatches (fun ins label => ins.label == label) (testInstances.map (predicted root))
        testInstances =
      .ok (correctCount root testInstances, testInstances.length) := by
  rw [countMatches_eq _ (List.length_map _), correctCount]
  congr 2
  apply countP_predicted hanswers
  intro cs label hfind
  simp only [hfind, beq_iff_eq, decide_eq_true_eq, Except.ok.injEq]
  exact eq_comm

/-- **One round.**  From a state with `n` instances, one excepted, the round
shuffles both lists and adds one tree and its accuracy. -/
theorem buildRound_eq (hone : n ≠ 1) (hn : n < 2 ^ 30) (st : ForestState CandleStick D)
    (hinstances : st.instances.length = n) (hfeatures : st.totalFeatures.length = 4) (i : Nat) :
    let instances := (shuffle i).apply st.instances
    let totalFeatures := (shuffleFeatures i).apply st.totalFeatures
    let dt : Forest.DecisionTree D :=
      ⟨Forest.buildDTree ((FeatureView.mk 0 2).read totalFeatures) (instances.take (2 * n / 3)),
        ⟨0, 2⟩⟩
    buildRound shuffle shuffleFeatures (Int32.ofNat n) st i =
      .ok ⟨instances, totalFeatures, st.trees ++ [dt],
        st.stats ++ [quotient (correctCount dt.root (instances.drop (2 * n / 3)))
          (instances.drop (2 * n / 3)).length]⟩ := by
  intro instances totalFeatures dt
  have hlength : instances.length = n := by rw [Shuffle.length_apply, hinstances]
  have hview : FeatureView.firstTwo totalFeatures = .ok ⟨0, 2⟩ := by
    apply FeatureView.firstTwo_of_length
    rw [Shuffle.length_apply, hfeatures]
  have hanswers : ∀ cs ∈ instances.drop (2 * n / 3), ∃ label, findMatch dt.root cs = .ok label :=
    growTree_answers (drop_eq_nil_of_take hone hlength)
  rw [buildRound, cutInstances_eq hn hlength, ok_bind]
  change (FeatureView.firstTwo totalFeatures >>= _) = _
  rw [hview, ok_bind]
  change (classifyTree dt.root _ >>= _) = _
  rw [classifyTree_eq hanswers, ok_bind, countMatches_predicted hanswers]
  rfl

/-- One instance leaves nothing to train on, and from `2 ^ 30` instances on the
cut wraps around: the round fails. -/
theorem buildRound_fails (hfew : n = 1 ∨ 2 ^ 30 ≤ n) (hn : n < 2 ^ 31)
    {st : ForestState CandleStick D} (hinstances : st.instances.length = n) (i : Nat)
    (next : ForestState CandleStick D) :
    buildRound shuffle shuffleFeatures (Int32.ofNat n) st i ≠ .ok next := by
  intro h
  have hlength : ((shuffle i).apply st.instances).length = n := by
    rw [Shuffle.length_apply, hinstances]
  obtain ⟨⟨trainInstances, testInstances⟩, hparts, h⟩ := bind_eq_ok h
  obtain ⟨usedFeatures, -, h⟩ := bind_eq_ok h
  obtain ⟨predictedLabels, hpredicted, -⟩ := bind_eq_ok h
  have hempty : trainInstances = [] ∧ testInstances ≠ [] := by
    have hne : (shuffle i).apply st.instances ≠ [] := by
      rw [← List.length_pos_iff, hlength]
      omega
    rcases hfew with rfl | hmany
    · rw [cutInstances_eq (by omega) hlength] at hparts
      obtain ⟨rfl, rfl⟩ := Prod.mk.inj (Except.ok.inj hparts)
      exact ⟨rfl, hne⟩
    · obtain ⟨rfl, rfl⟩ := Prod.mk.inj (cutInstances_wrapped hmany hn hlength hparts)
      exact ⟨rfl, hne⟩
  obtain ⟨rfl, hne⟩ := hempty
  cases hpredicted.symm.trans (classifyTree_growTree_nil hne)

/-- The rounds before the `k`-th add one tree and one accuracy each. -/
theorem foldlM_buildRound (hone : n ≠ 1) (hn : n < 2 ^ 30) {instances : List CandleStick}
    (hinstances : instances.length = n) (k : Nat) :
    (List.range k).foldlM (buildRound (D := D) shuffle shuffleFeatures (Int32.ofNat n))
        ⟨instances, [0, 1, 2, 3], [], []⟩ =
      .ok ⟨afterShuffles shuffle instances k, afterShuffles shuffleFeatures [0, 1, 2, 3] k,
        (List.range k).map (treeOf shuffle shuffleFeatures instances),
        (List.range k).map (accuracyOf (D := D) shuffle shuffleFeatures instances)⟩ := by
  induction k with
  | zero => rfl
  | succ k ih =>
      have hround := buildRound_eq (D := D) shuffle shuffleFeatures hone hn
        ⟨afterShuffles shuffle instances k, afterShuffles shuffleFeatures [0, 1, 2, 3] k,
          (List.range k).map (treeOf shuffle shuffleFeatures instances),
          (List.range k).map (accuracyOf (D := D) shuffle shuffleFeatures instances)⟩
        (by rw [length_afterShuffles, hinstances]) (by rw [length_afterShuffles]; rfl) k
      rw [List.range_succ, foldlM_snoc ih, hround, List.map_append, List.map_append, ← hinstances]
      rfl

/-- **All rounds.**  Except on a single instance, and while the double of their
number fits in an `int`, `buildForest` returns with one tree and one accuracy per
round. -/
theorem buildForest_eq (N : Int32) {instances : ArrayList CandleStick}
    (hone : instances.elements.length ≠ 1) (hn : instances.elements.length < 2 ^ 30) :
    buildForest (D := D) shuffle shuffleFeatures N instances =
      .ok ⟨afterShuffles shuffle instances.elements N.toInt.toNat,
        afterShuffles shuffleFeatures [0, 1, 2, 3] N.toInt.toNat,
        (List.range N.toInt.toNat).map (treeOf shuffle shuffleFeatures instances.elements),
        (List.range N.toInt.toNat).map
          (accuracyOf (D := D) shuffle shuffleFeatures instances.elements)⟩ :=
  foldlM_buildRound shuffle shuffleFeatures hone hn rfl _

/-- On the other sizes the first round fails. -/
theorem buildForest_fails {N : Int32} (hN : 0 < N.toInt) {instances : ArrayList CandleStick}
    (hsize : instances.elements.length = 1 ∨ 2 ^ 30 ≤ instances.elements.length)
    (forest : ForestState CandleStick D) :
    buildForest shuffle shuffleFeatures N instances ≠ .ok forest := by
  intro h
  obtain ⟨k, hk⟩ : ∃ k, N.toInt.toNat = k + 1 := ⟨N.toInt.toNat - 1, by omega⟩
  rw [buildForest, hk, List.range_succ_eq_map, List.foldlM_cons] at h
  obtain ⟨next, hnext, -⟩ := bind_eq_ok h
  exact buildRound_fails shuffle shuffleFeatures hsize instances.length_lt rfl 0 next hnext

end Rounds

section Promise

variable {D : Type} [Arith D] (shuffle : Nat → Shuffle)

/-- A finished forest: a tree and an accuracy for every round, each accuracy the
fraction of the held-out third that the tree labels correctly, and an answer for
every list of candles, in any order of iteration of the vote map. -/
structure WellBuilt (N : Nat) (instances : List CandleStick)
    (forest : ForestState CandleStick D) : Prop where
  trees_length : forest.trees.length = N
  stats_length : forest.stats.length = N
  accuracies : ∀ i < N, ∃ dt accuracy, forest.trees[i]? = some dt ∧
    forest.stats[i]? = some (some accuracy) ∧ 0 ≤ accuracy ∧ accuracy ≤ 1 ∧
    accuracy = correctCount dt.root (heldOut shuffle instances i) /
      (heldOut shuffle instances i).length
  classifies : ∀ entrySet : Entries Int32 Nat → Entries Int32 Nat,
    (∀ entries, (entrySet entries).Perm entries) → ∀ testingInstances, ∃ predictedLabels,
      (RandomForest.mk N (forest.trees.map Forest.DecisionTree.root)).classify entrySet
        testingInstances = .ok predictedLabels

/-- The instances that a round holds out are those behind its sample. -/
theorem length_heldOut (instances : List CandleStick) (i : Nat) :
    (heldOut shuffle instances i).length = instances.length - 2 * instances.length / 3 := by
  rw [heldOut, List.length_drop, length_afterShuffles]

/-- From two instances on no round trains on an empty sample. -/
theorem trainPart_ne_nil {instances : List CandleStick} (h : 2 ≤ instances.length) (i : Nat) :
    trainPart shuffle instances i ≠ [] := by
  rw [← List.length_pos_iff, trainPart, List.length_take, length_afterShuffles]
  omega

/-- The quotient of a count by a positive size is a number between 0 and 1. -/
theorem quotient_mem {m n : Nat} (hm : m ≤ n) (hn : 0 < n) :
    quotient m n = some ((m : ℚ) / n) ∧ 0 ≤ (m : ℚ) / n ∧ (m : ℚ) / n ≤ 1 := by
  have hpos : (0 : ℚ) < n := by exact_mod_cast hn
  refine ⟨if_neg (by omega), by positivity, ?_⟩
  rw [div_le_one hpos]
  exact_mod_cast hm

variable (shuffleFeatures : Nat → Shuffle)

/-- **Building a forest.**  For every list of instances and every sequence of
shuffles, `buildForest` finishes and the forest is as promised exactly when there
are at least two instances and the double of their number fits in an `int`. -/
theorem buildForest_wellBuilt_iff {N : Int32} (hN : 0 < N.toInt)
    (instances : ArrayList CandleStick) :
    (∃ forest : ForestState CandleStick D,
      buildForest shuffle shuffleFeatures N instances = .ok forest ∧
        WellBuilt shuffle N.toInt.toNat instances.elements forest) ↔
    2 ≤ instances.elements.length ∧ instances.elements.length < 2 ^ 30 := by
  constructor
  · rintro ⟨forest, hforest, hbuilt⟩
    have hsize : ¬ (instances.elements.length = 1 ∨ 2 ^ 30 ≤ instances.elements.length) :=
      fun hsize => buildForest_fails shuffle shuffleFeatures hN hsize forest hforest
    have hsome : instances.elements.length ≠ 0 := by
      intro hzero
      obtain ⟨dt, accuracy, -, hstat, -⟩ := hbuilt.accuracies 0 (by omega)
      rw [buildForest_eq shuffle shuffleFeatures N (by omega) (by omega)] at hforest
      rw [← Except.ok.inj hforest, List.getElem?_map, List.getElem?_range (by omega),
        Option.map_some, accuracyOf, length_heldOut, hzero] at hstat
      cases hstat
    omega
  · rintro ⟨htwo, hn⟩
    refine ⟨_, buildForest_eq shuffle shuffleFeatures N (by omega) hn, ?_, ?_, ?_, ?_⟩
    · simp
    · simp
    · intro i hi
      have hheld : 0 < (heldOut shuffle instances.elements i).length := by
        rw [length_heldOut]
        omega
      obtain ⟨hquotient, hnonneg, hle⟩ := quotient_mem
        (List.countP_le_length (p := fun cs => decide (findMatch
          (treeOf (D := D) shuffle shuffleFeatures instances.elements i).root cs =
            .ok cs.label))) hheld
      refine ⟨_, _, ?_, ?_, hnonneg, hle, rfl⟩
      · rw [List.getElem?_map, List.getElem?_range hi, Option.map_some]
      · rw [List.getElem?_map, List.getElem?_range hi, Option.map_some, accuracyOf]
        exact congrArg some hquotient
    · intro entrySet horder testingInstances
      have hrounds : 1 ≤ N.toInt.toNat := by omega
      obtain ⟨predictedLabels, hlabels, -⟩ := classify_plurality horder
        (RandomForest.mk N.toInt.toNat ((List.range N.toInt.toNat).map fun i =>
          (treeOf (D := D) shuffle shuffleFeatures instances.elements i).root))
        hrounds (by simp) (by
          intro tree htree
          obtain ⟨i, -, rfl⟩ := List.mem_map.mp htree
          exact ⟨false, featuresOf shuffleFeatures i, trainPart shuffle instances.elements i,
            trainPart_ne_nil shuffle htwo i, rfl⟩) testingInstances
      refine ⟨predictedLabels, ?_⟩
      rw [List.map_map]
      exact hlabels

theorem buildForest_wellBuilt_pair :
    ∃ forest : ForestState CandleStick Exact,
      buildForest (fun _ _ => 1) (fun _ _ => 1) 1 ⟨[risingCandle, fallingCandle], by decide⟩ =
        .ok forest ∧
      WellBuilt (fun _ _ => 1) 1 [risingCandle, fallingCandle] forest :=
  (buildForest_wellBuilt_iff (fun _ _ => 1) (fun _ _ => 1) (by decide)
    ⟨[risingCandle, fallingCandle], by decide⟩).mpr ⟨le_rfl, by decide⟩

/-- A single instance is enough to make training fail. -/
theorem single_instance_fails :
    ¬ ∃ forest : ForestState CandleStick Exact,
      buildForest (fun _ _ => 1) (fun _ _ => 1) 1 ⟨[risingCandle], by decide⟩ = .ok forest := by
  rintro ⟨forest, hforest⟩
  exact buildForest_fails _ _ (by decide) (Or.inl rfl) forest hforest

end Promise

end RandomForest

end Forex
