import ForexForest.FeatureViews
import ForexForest.TrainingConsistency
import ForexForest.Voting
import ForexForest.VoteOrder

/-!
# What a forest answers

`classify` answers every candle on its own (`classify_eq`): it elects a label
among the answers of the trees.  So what an election promises carries over to the
whole list of candles.

* `classify_errors_le` — a forest errs at most twice as often as its trees do on
  the average, in any order of iteration of the vote map;
* `classify_append` — where two forests answer alike, so does the forest that has
  the trees of both;
* `buildForest_answers` — a trained forest answers correctly every candle that
  more than half of its trees were trained on without dividing a run of ties.
-/

namespace Forex

open Java

namespace RandomForest

variable {D : Type} [Arith D]

/-- The trees of a forest, one for each of the `N` rounds, were grown from
non-empty lists of candles with such labels. -/
structure Trained (labels : Int32 → Prop) (forest : RandomForest D) : Prop where
  some_tree : 1 ≤ forest.N
  size : forest.trees.length = forest.N
  grown : ∀ tree ∈ forest.trees, ∃ stopsAtOne featureIdx trainInstances,
    trainInstances ≠ [] ∧ (∀ cs ∈ trainInstances, labels cs.label) ∧
      tree = growTree calcEntropy stopsAtOne featureIdx trainInstances

/-- The label elected for a candle by the answers of the trees. -/
def answer (entrySet : Entries Int32 Nat → Entries Int32 Nat) (trees : List (DTNode D))
    (cs : CandleStick) : Int32 :=
  (elect entrySet (trees.map fun tree => predicted tree cs)).getD 0

/-- The candles of the list whose label is not the one predicted. -/
def errorCount (testingInstances : List CandleStick) (predictedLabels : List Int32) : Nat :=
  (testingInstances.zip predictedLabels).countP fun pair => pair.1.label ≠ pair.2

/-- The candles of the list that the tree does not answer with their label. -/
def treeErrors (testingInstances : List CandleStick) (tree : DTNode D) : Nat :=
  testingInstances.countP fun cs => findMatch tree cs ≠ .ok cs.label

/-- The forest of the three trees that disagree. -/
def threeForest (D : Type) [Arith D] : RandomForest D := ⟨3, threeTrees D⟩

/-- A forest that has seen the rising candle twice and the falling one once. -/
def risingForest (D : Type) [Arith D] : RandomForest D :=
  ⟨3, [growTree calcEntropy false [0, 1] [fallingCandle],
    growTree calcEntropy false [0, 1] [risingCandle],
    growTree calcEntropy false [2, 3] [risingCandle]]⟩

theorem threeForest_trained : (threeForest D).Trained IsLabel :=
  ⟨Nat.le_add_left 1 2, rfl, threeTrees_grown⟩

theorem risingForest_trained : (risingForest D).Trained IsLabel := by
  refine ⟨Nat.le_add_left 1 2, rfl, fun tree htree => ?_⟩
  simp only [risingForest, List.mem_cons, List.not_mem_nil, or_false] at htree
  have hfalling : IsLabel fallingCandle.label := candlePair_labels _ List.mem_cons_self
  have hrising : IsLabel risingCandle.label :=
    candlePair_labels _ (List.mem_cons_of_mem _ List.mem_cons_self)
  rcases htree with rfl | rfl | rfl
  · exact grown_singleton false [0, 1] hfalling
  · exact grown_singleton false [0, 1] hrising
  · exact grown_singleton false [2, 3] hrising

/-- Its votes are the same for every candle: one to fall and two to rise. -/
theorem votesFor_risingForest (cs : CandleStick) (label : Int32) :
    votesFor (risingForest Exact).trees cs label = [-1, 1, 1].count label := by
  simp only [votesFor, risingForest, List.countP_cons, List.countP_nil, findMatch_singleton,
    List.count_cons, List.count_nil, Except.ok.injEq, decide_eq_true_eq, beq_iff_eq]
  rfl

section Answers

variable {labels : Int32 → Prop} {forest : RandomForest D}

theorem Trained.trees_ne_nil (h : forest.Trained labels) : forest.trees ≠ [] := by
  rw [← List.length_pos_iff, h.size]
  exact h.some_tree

/-- Every tree of a trained forest answers every candle, with the label of a
training candle. -/
theorem Trained.answers (h : forest.Trained labels) :
    ∀ tree ∈ forest.trees, ∀ cs, ∃ label, findMatch tree cs = .ok label ∧ labels label := by
  intro tree htree cs
  obtain ⟨stopsAtOne, featureIdx, trainInstances, hne, hlabels, rfl⟩ := h.grown tree htree
  obtain ⟨x, hx, hfind⟩ := findMatch_growTree (calcEntropy : List CandleStick → D) stopsAtOne
    featureIdx hne cs
  exact ⟨x.label, hfind, hlabels x hx⟩

/-- Every tree answers, and its answer is the predicted label. -/
theorem Trained.findMatch_eq (h : forest.Trained labels) {tree : DTNode D}
    (htree : tree ∈ forest.trees) (cs : CandleStick) :
    findMatch tree cs = .ok (predicted tree cs) := by
  obtain ⟨label, hlabel, -⟩ := h.answers tree htree cs
  exact findMatch_predicted ⟨label, hlabel⟩

/-- The predicted labels are labels of training candles. -/
theorem Trained.labels_predicted (h : forest.Trained labels) {tree : DTNode D}
    (htree : tree ∈ forest.trees) (cs : CandleStick) : labels (predicted tree cs) := by
  obtain ⟨label, hlabel, hlabels⟩ := h.answers tree htree cs
  rw [predicted, hlabel]
  exact hlabels

variable {entrySet : Entries Int32 Nat → Entries Int32 Nat}
  (horder : ∀ entries, (entrySet entries).Perm entries)
include horder

/-- The answer is elected: some tree votes for it, and no label has more votes. -/
theorem answer_spec {trees : List (DTNode D)} (hne : trees ≠ []) (cs : CandleStick) :
    elect entrySet (trees.map fun tree => predicted tree cs) = some (answer entrySet trees cs) ∧
      0 < (trees.map fun tree => predicted tree cs).count (answer entrySet trees cs) ∧
      ∀ other, (trees.map fun tree => predicted tree cs).count other ≤
        (trees.map fun tree => predicted tree cs).count (answer entrySet trees cs) := by
  have hvotes : trees.map (fun tree => predicted tree cs) ≠ [] := by simpa using hne
  obtain ⟨label, hlabel, hpos, hmost⟩ := elect_spec horder hvotes
  have hanswer : answer entrySet trees cs = label := by rw [answer, hlabel, Option.getD_some]
  rw [hanswer]
  exact ⟨hlabel, hpos, hmost⟩

/-- **One candle at a time.**  `classify` returns the answer for each candle. -/
theorem classify_eq (h : forest.Trained labels) (testingInstances : List CandleStick) :
    forest.classify entrySet testingInstances =
      .ok (testingInstances.map (answer entrySet forest.trees)) := by
  have hrect : ∀ row ∈ forest.trees.map fun tree => testingInstances.map (predicted tree),
      row.length = testingInstances.length := by
    intro row hrow
    obtain ⟨tree, -, rfl⟩ := List.mem_map.mp hrow
    exact List.length_map _
  obtain ⟨elected, helected, hlength, hat⟩ :=
    countVotes_spec horder (by simpa using h.trees_ne_nil) hrect
  rw [List.length_map, h.size] at helected
  have hsame : elected = testingInstances.map (answer entrySet forest.trees) := by
    apply List.ext_getElem (by simpa using hlength)
    intro k hk hk'
    have hlt : k < testingInstances.length := hlength ▸ hk
    have hcolumn : column (forest.trees.map fun tree => testingInstances.map (predicted tree)) k =
        forest.trees.map fun tree => predicted tree testingInstances[k] := by
      simp [column, List.filterMap_map, hlt]
    have helect := hat k hlt
    rw [hcolumn, (answer_spec horder h.trees_ne_nil _).1, List.getElem?_eq_getElem hk,
      Option.some_inj] at helect
    rw [helect, List.getElem_map]
  rw [classify, ← h.size,
    mapM_classify fun tree htree cs _ => ⟨_, h.findMatch_eq htree cs⟩, ok_bind, h.size, helected,
    hsame]

/-- The answer is a plurality label. -/
theorem plurality_answer (h : forest.Trained labels) (cs : CandleStick) :
    Plurality forest.trees cs (answer entrySet forest.trees cs) := by
  obtain ⟨-, hpos, hmost⟩ := answer_spec horder h.trees_ne_nil cs
  have hanswers : ∀ tree ∈ forest.trees, ∀ cs, ∃ label, findMatch tree cs = .ok label :=
    fun tree htree cs => ⟨_, h.findMatch_eq htree cs⟩
  refine ⟨?_, fun other => ?_, fun other hmajority => ?_⟩
  · rwa [votesFor_eq_count hanswers]
  · rw [votesFor_eq_count hanswers, votesFor_eq_count hanswers]
    exact hmost other
  · rw [votesFor_eq_count hanswers] at hmajority
    exact (elected_of_majority hmost (by rwa [List.length_map])).symm

/-- Where more than half of the trees agree on a label, the forest answers it. -/
theorem classify_of_majority (h : forest.Trained labels) {testingInstances : List CandleStick}
    (label : CandleStick → Int32)
    (hmajority : ∀ cs ∈ testingInstances, forest.N < 2 * votesFor forest.trees cs (label cs)) :
    forest.classify entrySet testingInstances = .ok (testingInstances.map label) := by
  rw [classify_eq horder h, Except.ok.injEq]
  apply List.map_congr_left
  intro cs hcs
  have hmost := hmajority cs hcs
  rw [← h.size] at hmost
  exact ((plurality_answer horder h cs).majority (label cs) hmost).symm

/-- A candle that the forest gets wrong is wrong in at least half of the trees. -/
theorem length_le_wrong (h : forest.Trained labels) {cs : CandleStick}
    (hwrong : cs.label ≠ answer entrySet forest.trees cs) :
    forest.N ≤ 2 * forest.trees.countP fun tree => findMatch tree cs ≠ .ok cs.label := by
  have hmissed := length_le_of_elected (answer_spec horder h.trees_ne_nil cs).2.2 hwrong.symm
  rw [List.length_map, h.size, List.countP_map] at hmissed
  refine hmissed.trans_eq ?_
  congr 1
  apply List.countP_congr
  intro tree htree
  simp [h.findMatch_eq htree cs]

/-- Summed over the candles: each one that the forest gets wrong costs half of the
trees a mistake. -/
theorem errorCount_answers_le (h : forest.Trained labels) (testingInstances : List CandleStick) :
    forest.N * errorCount testingInstances
        (testingInstances.map (answer entrySet forest.trees)) ≤
      2 * (forest.trees.map (treeErrors testingInstances)).sum := by
  have hcount : errorCount testingInstances
      (testingInstances.map (answer entrySet forest.trees)) =
      testingInstances.countP fun cs => cs.label ≠ answer entrySet forest.trees cs := by
    rw [errorCount, ← List.map_prod_left_eq_zip, List.countP_map]
    rfl
  have hsum := mul_countP_le_sum (n := forest.N) (l := testingInstances)
    (p := fun cs => cs.label ≠ answer entrySet forest.trees cs)
    (f := fun cs => 2 * forest.trees.countP fun tree => findMatch tree cs ≠ .ok cs.label)
    fun cs _ hwrong => length_le_wrong horder h (by simpa using hwrong)
  rw [List.sum_map_mul_left, sum_countP_comm] at hsum
  rw [hcount]
  exact hsum

/-- **The errors of a forest.**  On every list of candles the forest errs at most
twice as often as its trees do on the average. -/
theorem classify_errors_le (h : forest.Trained labels) (testingInstances : List CandleStick) :
    ∃ predictedLabels, forest.classify entrySet testingInstances = .ok predictedLabels ∧
      predictedLabels.length = testingInstances.length ∧
      forest.N * errorCount testingInstances predictedLabels ≤
        2 * (forest.trees.map (treeErrors testingInstances)).sum :=
  ⟨_, classify_eq horder h testingInstances, List.length_map _,
    errorCount_answers_le horder h testingInstances⟩

end Answers

/-- The majority of the three trees is right on both candles. -/
theorem classify_threeForest :
    (threeForest Exact).classify HashMap.entrySet candlePair = .ok [-1, 1] := by
  refine classify_of_majority HashMap.entrySet_perm threeForest_trained CandleStick.label
    fun cs hcs => ?_
  change 3 < 2 * votesFor (threeTrees Exact) cs cs.label
  rw [votesFor_threeTrees hcs]
  revert cs
  decide

/-- So the rising forest answers every candle with a rise. -/
theorem classify_risingForest :
    (risingForest Exact).classify HashMap.entrySet candlePair = .ok [1, 1] := by
  refine classify_of_majority HashMap.entrySet_perm risingForest_trained (fun _ => 1)
    fun cs hcs => ?_
  rw [votesFor_risingForest]
  decide

/-- The mistakes of a tree whose answers are known. -/
theorem treeErrors_of_answers {tree : DTNode D} {testingInstances : List CandleStick}
    {label : CandleStick → Int32}
    (h : ∀ cs ∈ testingInstances, findMatch tree cs = .ok (label cs)) :
    treeErrors testingInstances tree = testingInstances.countP fun cs => label cs ≠ cs.label :=
  List.countP_congr fun cs hcs => by simp [h cs hcs]

/-- Together the three trees make two mistakes on the pair. -/
theorem treeErrors_threeTrees :
    ((threeForest Exact).trees.map (treeErrors candlePair)).sum = 2 := by
  simp only [threeForest, threeTrees, List.map_cons, List.map_nil]
  rw [treeErrors_of_answers fun cs _ => findMatch_singleton false [0, 1] fallingCandle cs,
    treeErrors_of_answers fun cs _ => findMatch_singleton false [0, 1] risingCandle cs,
    treeErrors_of_answers fun cs hcs => findMatch_candlePair hcs]
  decide

/-- Two of the three trees err once each, so the forest errs at most once. -/
theorem classify_errors_le_threeTrees : ∃ predictedLabels,
    (threeForest Exact).classify HashMap.entrySet candlePair = .ok predictedLabels ∧
    predictedLabels.length = 2 ∧
    3 * errorCount candlePair predictedLabels ≤
      2 * ((threeForest Exact).trees.map (treeErrors candlePair)).sum ∧
    ((threeForest Exact).trees.map (treeErrors candlePair)).sum = 2 := by
  obtain ⟨predictedLabels, hclassify, hlength, herrors⟩ :=
    classify_errors_le HashMap.entrySet_perm (threeForest_trained (D := Exact)) candlePair
  exact ⟨predictedLabels, hclassify, hlength, herrors, treeErrors_threeTrees⟩

section Union

/-- Two elections that agree elect the same label together. -/
theorem elect_append {votes votes' : List Int32} (hlabels : ∀ vote ∈ votes, IsLabel vote)
    (hlabels' : ∀ vote ∈ votes', IsLabel vote) {label : Int32}
    (h : elect HashMap.entrySet votes = some label)
    (h' : elect HashMap.entrySet votes' = some label) :
    elect HashMap.entrySet (votes ++ votes') = some label := by
  have hboth : ∀ vote ∈ votes ++ votes', IsLabel vote := by
    intro vote hvote
    rcases List.mem_append.mp hvote with hvote | hvote
    · exact hlabels vote hvote
    · exact hlabels' vote hvote
  obtain ⟨his, hpos, hmost, hrise⟩ := elected_facts hlabels h
  obtain ⟨-, -, hmost', hrise'⟩ := elected_facts hlabels' h'
  have hne : votes ≠ [] := List.ne_nil_of_mem (List.count_pos_iff.mp hpos)
  have hne' : votes ++ votes' ≠ [] := List.append_ne_nil_of_left_ne_nil hne _
  obtain ⟨both, helect, -, -⟩ := elect_spec HashMap.entrySet_perm hne'
  obtain ⟨hisBoth, -, hmostBoth, hriseBoth⟩ := elected_facts hboth helect
  simp only [List.count_append] at hmostBoth hriseBoth
  have hle := hmost both
  have hle' := hmost' both
  have hge := hmostBoth label
  rw [helect, Option.some_inj]
  by_contra hdiff
  -- the two labels tie in both elections, so neither is `1`
  have hl : label ≠ 1 := fun hone => by
    have := hrise hone both fun hb => hdiff (hb.trans hone.symm)
    rw [hone] at hge hle'
    omega
  have hb : both ≠ 1 := fun hone => by
    have := hriseBoth hone label hl
    rw [hone] at hle hle'
    omega
  have hone := hmost 1
  have honeBoth := hmostBoth 1
  have htied : Tied votes ∧ Tied (votes ++ votes') := by
    unfold Tied
    simp only [List.count_append]
    rcases his with rfl | rfl | rfl
    all_goals rcases hisBoth with rfl | rfl | rfl
    all_goals first | exact absurd rfl hdiff | exact absurd rfl hl | exact absurd rfl hb |
      exact ⟨⟨by omega, by omega⟩, by omega, by omega⟩
  rw [elect_of_tied hlabels hne htied.1, firstNotRise] at h
  rw [elect_of_tied hboth hne' htied.2, firstNotRise, List.find?_append, h, Option.some_or,
    Option.some_inj] at helect
  exact hdiff helect.symm

variable {forest forest' : RandomForest D}

/-- **Two forests as one.**  The forest with the trees of both answers every
candle as they do, where they answer it alike. -/
theorem classify_append (h : forest.Trained IsLabel) (h' : forest'.Trained IsLabel)
    (testingInstances : List CandleStick) :
    ∃ predicted predicted' together : List Int32,
      forest.classify HashMap.entrySet testingInstances = .ok predicted ∧
      forest'.classify HashMap.entrySet testingInstances = .ok predicted' ∧
      (RandomForest.mk (forest.N + forest'.N) (forest.trees ++ forest'.trees)).classify
        HashMap.entrySet testingInstances = .ok together ∧
      together.length = testingInstances.length ∧
      ∀ k : Nat, predicted[k]? = predicted'[k]? → together[k]? = predicted[k]? := by
  have hboth : (RandomForest.mk (forest.N + forest'.N)
      (forest.trees ++ forest'.trees)).Trained IsLabel := by
    refine ⟨le_add_right h.some_tree, ?_, fun tree htree => ?_⟩
    · rw [List.length_append, h.size, h'.size]
    · rcases List.mem_append.mp htree with htree | htree
      · exact h.grown tree htree
      · exact h'.grown tree htree
  refine ⟨_, _, _, classify_eq HashMap.entrySet_perm h testingInstances,
    classify_eq HashMap.entrySet_perm h' testingInstances,
    classify_eq HashMap.entrySet_perm hboth testingInstances, List.length_map _, ?_⟩
  intro k hk
  rw [List.getElem?_map, List.getElem?_map] at hk ⊢
  cases hcs : testingInstances[k]? with
  | none => rfl
  | some cs =>
      rw [hcs, Option.map_some, Option.map_some, Option.some_inj] at hk
      rw [Option.map_some, Option.map_some, ← (answer_spec HashMap.entrySet_perm
        hboth.trees_ne_nil cs).1, List.map_append]
      apply elect_append
      · intro vote hvote
        obtain ⟨tree, htree, rfl⟩ := List.mem_map.mp hvote
        exact h.labels_predicted htree cs
      · intro vote hvote
        obtain ⟨tree, htree, rfl⟩ := List.mem_map.mp hvote
        exact h'.labels_predicted htree cs
      · exact (answer_spec HashMap.entrySet_perm h.trees_ne_nil cs).1
      · rw [hk]
        exact (answer_spec HashMap.entrySet_perm h'.trees_ne_nil cs).1

/-- The two forests disagree on the falling candle and agree on the rising one. -/
theorem classify_append_threeTrees : ∃ predicted predicted' together : List Int32,
    (threeForest Exact).classify HashMap.entrySet candlePair = .ok predicted ∧
    (risingForest Exact).classify HashMap.entrySet candlePair = .ok predicted' ∧
    (RandomForest.mk (3 + 3) ((threeForest Exact).trees ++ (risingForest Exact).trees)).classify
      HashMap.entrySet candlePair = .ok together ∧
    together.length = 2 ∧ predicted[0]? ≠ predicted'[0]? ∧ together[1]? = some 1 := by
  obtain ⟨predicted, predicted', together, h, h', htogether, hlength, hagree⟩ :=
    classify_append (threeForest_trained (D := Exact)) (risingForest_trained (D := Exact))
      candlePair
  have hpredicted : predicted = [-1, 1] := Except.ok.inj (h.symm.trans classify_threeForest)
  have hpredicted' : predicted' = [1, 1] := Except.ok.inj (h'.symm.trans classify_risingForest)
  subst hpredicted hpredicted'
  exact ⟨_, _, together, h, h', htogether, hlength, by decide, hagree 1 rfl⟩

end Union

section Training

variable (shuffle shuffleFeatures : Nat → Shuffle)

variable {N : Int32} {instances : ArrayList CandleStick}

/-- The class `RandomForest` after `buildForest`. -/
def built (N : Int32) (forest : ForestState CandleStick D) : RandomForest D :=
  ⟨N.toInt.toNat, forest.trees.map Forest.DecisionTree.root⟩

/-- What `buildForest` returns is trained on the instances. -/
theorem buildForest_trained (labels : Int32 → Prop) (hN : 0 < N.toInt)
    (htwo : 2 ≤ instances.elements.length)
    (hlabels : ∀ cs ∈ instances.elements, labels cs.label) {forest : ForestState CandleStick D}
    (h : buildForest shuffle shuffleFeatures N instances = .ok forest) :
    (built N forest).Trained labels := by
  have htrees := (eq_of_buildForest h).2
  refine ⟨by simp only [built]; omega, by simp [built, htrees], fun tree htree => ?_⟩
  rw [built, htrees] at htree
  obtain ⟨dt, hdt, rfl⟩ := List.mem_map.mp htree
  obtain ⟨i, -, rfl⟩ := List.mem_map.mp hdt
  refine ⟨false, featuresOf shuffleFeatures i, trainPart shuffle instances.elements i,
    trainPart_ne_nil shuffle htwo i, fun cs hcs => ?_, rfl⟩
  exact hlabels cs ((afterShuffles_perm shuffle instances.elements (i + 1)).mem_iff.mp
    (List.mem_of_mem_take hcs))

/-- A round draws two features. -/
theorem length_featuresOf (i : Nat) : (featuresOf shuffleFeatures i).length = 2 := by
  change ((afterShuffles shuffleFeatures [0, 1, 2, 3] (i + 1)).take 2).length = 2
  rw [List.length_take, length_afterShuffles]
  rfl

/-- The features of a round are two of the four. -/
theorem featuresOf_subset (i : Nat) : ∀ feature ∈ featuresOf shuffleFeatures i,
    IsFeature feature := by
  intro feature hfeature
  have hmem := (afterShuffles_perm shuffleFeatures [0, 1, 2, 3] (i + 1)).mem_iff.mp
    (List.mem_of_mem_take (List.mem_of_mem_drop hfeature))
  simpa [IsFeature] using hmem

/-- Instances that differ from each other in all four features have no ties in
any sample, whatever the shuffles put into it. -/
theorem cutsBetweenValues_trainPart {instances : List CandleStick}
    (hlen : instances.length ≤ maxListLength) (hlabels : ∀ cs ∈ instances, IsLabel cs.label)
    (hties : NoTies [0, 1, 2, 3] instances) (i : Nat) :
    CutsBetweenValues (featuresOf shuffleFeatures i) (trainPart shuffle instances i) := by
  have hperm := afterShuffles_perm shuffle instances (i + 1)
  have hsublist : (trainPart shuffle instances i).Sublist
      (afterShuffles shuffle instances (i + 1)) := List.take_sublist _ _
  apply cutsBetweenValues_of_noTies
  · exact List.ne_nil_of_length_pos (length_featuresOf shuffleFeatures i ▸ Nat.two_pos)
  · exact (hsublist.length_le.trans_eq hperm.length_eq).trans hlen
  · exact fun cs hcs => hlabels cs (hperm.mem_iff.mp (hsublist.subset hcs))
  · intro feature hfeature
    have hused : feature ∈ ([0, 1, 2, 3] : List Int) := by
      simpa [IsFeature] using featuresOf_subset shuffleFeatures i feature hfeature
    exact ((hties.perm hperm).sublist hsublist) feature hused

/-- A tree of the forest answers what it was trained on, if its cuts divide no
run of ties. -/
theorem predicted_treeOf {instances : List CandleStick} (htwo : 2 ≤ instances.length)
    (hlabels : ∀ cs ∈ instances, IsLabel cs.label) {i : Nat} {cs : CandleStick}
    (hcs : cs ∈ trainPart shuffle instances i)
    (hcuts : CutsBetweenValues (featuresOf shuffleFeatures i) (trainPart shuffle instances i)) :
    predicted (treeOf (D := Exact) shuffle shuffleFeatures instances i).root cs = cs.label := by
  have hgrown := grown_growTree (calcEntropy : List CandleStick → Exact) false
    (featuresOf shuffleFeatures i) (trainPart shuffle instances i)
  have hpart : ∀ x ∈ trainPart shuffle instances i, IsLabel x.label := fun x hx =>
    hlabels x ((afterShuffles_perm shuffle instances (i + 1)).mem_iff.mp
      (List.mem_of_mem_take hx))
  have hright := (hgrown.trainedRight_iff (trainPart_ne_nil shuffle htwo i) hpart
    (featuresOf_subset shuffleFeatures i)).mpr hcuts
  have hfind : findMatch (treeOf (D := Exact) shuffle shuffleFeatures instances i).root cs =
    .ok cs.label := hright.1 cs hcs
  rw [predicted, hfind]

/-- **The majority of the samples.**  A forest answers with its own label every
instance on which more than half of the rounds trained without dividing a run of
ties. -/
theorem buildForest_answers {entrySet : Entries Int32 Nat → Entries Int32 Nat}
    (horder : ∀ entries, (entrySet entries).Perm entries) (hN : 0 < N.toInt)
    (htwo : 2 ≤ instances.elements.length)
    (hlabels : ∀ cs ∈ instances.elements, IsLabel cs.label)
    {forest : ForestState CandleStick Exact}
    (hforest : buildForest shuffle shuffleFeatures N instances = .ok forest)
    (testingInstances : List CandleStick) :
    ∃ predictedLabels,
      (built N forest).classify entrySet testingInstances = .ok predictedLabels ∧
      ∀ (k : Nat) (cs : CandleStick), testingInstances[k]? = some cs →
        ∀ rounds : List Nat, rounds.Nodup →
          (∀ i ∈ rounds, i < N.toInt.toNat ∧ cs ∈ trainPart shuffle instances.elements i ∧
            CutsBetweenValues (featuresOf shuffleFeatures i)
              (trainPart shuffle instances.elements i)) →
          N.toInt.toNat < 2 * rounds.length → predictedLabels[k]? = some cs.label := by
  have htrained := buildForest_trained shuffle shuffleFeatures IsLabel hN htwo hlabels hforest
  refine ⟨_, classify_eq horder htrained testingInstances, ?_⟩
  intro k cs hcs rounds hdistinct hrounds hmajority
  rw [List.getElem?_map, hcs, Option.map_some, Option.some_inj]
  refine elected_of_majority (answer_spec horder htrained.trees_ne_nil cs).2.2 ?_
  rw [List.length_map, htrained.size]
  -- each of the rounds is a vote for the label
  have hvotes : rounds.length ≤ ((List.range N.toInt.toNat).filter fun i =>
      predicted (treeOf (D := Exact) shuffle shuffleFeatures instances.elements i).root cs ==
        cs.label).length := by
    refine (hdistinct.subperm fun i hi => ?_).length_le
    obtain ⟨hlt, hmem, hcuts⟩ := hrounds i hi
    rw [List.mem_filter, List.mem_range, beq_iff_eq]
    exact ⟨hlt, predicted_treeOf shuffle shuffleFeatures htwo hlabels hmem hcuts⟩
  rw [built, (eq_of_buildForest hforest).2, List.map_map, List.map_map, List.count,
    List.countP_map, List.countP_eq_length_filter]
  refine hmajority.trans_le ?_
  exact Nat.mul_le_mul_left 2 hvotes

end Training

section ThreeMinutes

/-- A candle of one price. -/
def flatCandle (time : JString) (price : Double) (label : Int32) : CandleStick :=
  ⟨lit "USD/JPY", time, price, price, price, label⟩

/-- Three minutes, one with each label. -/
def threeMinutes : ArrayList CandleStick where
  elements := [flatCandle (lit "20150803 16:35") Double.one (-1),
    flatCandle (lit "20150803 16:36") Double.oneAndHalf 1,
    flatCandle (lit "20150803 16:37") Double.two 0]
  length_lt := by decide

/-- Turned by one place in each round, every minute is in the sample of two of
the three rounds. -/
theorem trainPart_threeMinutes (cs : CandleStick) (hcs : cs ∈ threeMinutes.elements) :
    ∃ rounds : List Nat, rounds.Nodup ∧ rounds.length = 2 ∧
      ∀ i ∈ rounds, i < 3 ∧ cs ∈ trainPart (fun _ => finRotate) threeMinutes.elements i := by
  revert cs
  simp only [threeMinutes, List.forall_mem_cons]
  exact ⟨⟨[1, 2], by decide +kernel⟩, ⟨[0, 2], by decide +kernel⟩, ⟨[0, 1], by decide +kernel⟩,
    by simp⟩

/-- The three samples differ, and each minute is learnt by two trees of three. -/
theorem buildForest_answers_threeMinutes : ∃ forest predictedLabels,
    buildForest (D := Exact) (fun _ => finRotate) (fun _ => finRotate) 3 threeMinutes =
      .ok forest ∧
    (built 3 forest).classify HashMap.entrySet threeMinutes.elements = .ok predictedLabels ∧
    predictedLabels[0]? = some (-1 : Int32) ∧ predictedLabels[1]? = some (1 : Int32) ∧
      predictedLabels[2]? = some (0 : Int32) := by
  have hforest : buildForest (D := Exact) (fun _ => finRotate) (fun _ => finRotate) 3
      threeMinutes = .ok _ := buildForest_eq _ _ 3 (by decide) (by decide)
  have hlabels : ∀ cs ∈ threeMinutes.elements, IsLabel cs.label := by
    simp [threeMinutes, flatCandle, IsLabel]
  obtain ⟨predictedLabels, hclassify, hanswers⟩ := buildForest_answers (fun _ => finRotate)
    (fun _ => finRotate) HashMap.entrySet_perm (by decide) (by decide) hlabels hforest
    threeMinutes.elements
  have hown : ∀ (k : Nat) (cs : CandleStick), threeMinutes.elements[k]? = some cs →
      predictedLabels[k]? = some cs.label := by
    intro k cs hcs
    obtain ⟨rounds, hnodup, hlength, hrounds⟩ :=
      trainPart_threeMinutes cs (List.mem_of_getElem? hcs)
    refine hanswers k cs hcs rounds hnodup (fun i hi => ?_) (by rw [hlength]; decide)
    obtain ⟨hlt, hmem⟩ := hrounds i hi
    exact ⟨hlt, hmem, cutsBetweenValues_trainPart _ _ (by decide) hlabels (by decide +kernel) i⟩
  exact ⟨_, predictedLabels, hforest, hclassify, hown 0 _ rfl, hown 1 _ rfl, hown 2 _ rfl⟩

end ThreeMinutes

end RandomForest

end Forex
