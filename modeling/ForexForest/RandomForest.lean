import ForexForest.JavaLists
import ForexForest.TrainingConsistency
import ForexForest.Voting

/-!
# The vote of the forest

`RandomForest.classify` asks every tree for its labels and lets `countVotes`
elect one label per candle: a map counts the votes for the candle, and a loop
over the entries of the map keeps the first entry of greatest count.

`countVotes_spec` reduces the loops over a rectangular vote matrix to one `elect`
per column, and `classify_plurality` reads off what the forest promises in any
order of iteration of the map.
-/

namespace Forex

open Java

section Votes

variable (entrySet : Entries Int32 Nat → Entries Int32 Nat)

/-- The body of the inner loop of `countVotes`. -/
def countVote (treesPredictedLabels : List (List Int32)) (k : Nat) (votes : Entries Int32 Nat)
    (i : Nat) : Except Exception (Entries Int32 Nat) := do
  let labelsPerTree ← listGet treesPredictedLabels i
  let label ← listGet labelsPerTree k
  return vote votes label

/-- The body of the outer loop of `countVotes`. -/
def countInstance (N : Nat) (treesPredictedLabels : List (List Int32)) (k : Nat) :
    Except Exception Int32 := do
  let votes ← (List.range N).foldlM (countVote treesPredictedLabels k) []
  match maxEntry (entrySet votes) with
  | none => .error .nullPointer
  | some max => return max.1

/-- `countVotes`. -/
def countVotes (N : Nat) (treesPredictedLabels : List (List Int32)) :
    Except Exception (List Int32) := do
  let labelsOfFirst ← listGet treesPredictedLabels 0
  (List.range labelsOfFirst.length).mapM (countInstance entrySet N treesPredictedLabels)

/-- The votes for the candle at position `k`. -/
def column (rows : List (List Int32)) (k : Nat) : List Int32 := rows.filterMap fun row => row[k]?

variable {entrySet} {rows : List (List Int32)} {m k : Nat}

theorem column_length (hrect : ∀ row ∈ rows, row.length = m) (hk : k < m) :
    (column rows k).length = rows.length := by
  rw [column, List.filterMap_length_eq_length]
  intro row hrow
  rw [List.getElem?_eq_getElem (hrect row hrow ▸ hk)]
  rfl

/-- The inner loop counts the column, tree by tree. -/
theorem foldlM_countVote (hrect : ∀ row ∈ rows, row.length = m) (hk : k < m) {n : Nat}
    (hn : n ≤ rows.length) :
    (List.range n).foldlM (countVote rows k) [] = .ok (tally (column (rows.take n) k)) := by
  induction n with
  | zero => rfl
  | succ n ih =>
      have hlt : n < rows.length := hn
      have hrow : k < rows[n].length := by
        rw [hrect _ (List.getElem_mem hlt)]
        exact hk
      have hcolumn : column (rows.take (n + 1)) k = column (rows.take n) k ++ [rows[n][k]] := by
        rw [List.take_succ_eq_append_getElem hlt, column, List.filterMap_append]
        simp [column, hrow]
      rw [List.range_succ, foldlM_snoc (ih hlt.le), hcolumn, tally_snoc, countVote,
        listGet_of_lt hlt, ok_bind, listGet_of_lt hrow]
      rfl

/-- One round of the outer loop elects a label of the column. -/
theorem countInstance_eq (hrect : ∀ row ∈ rows, row.length = m) (hk : k < m) {label : Int32}
    (helect : elect entrySet (column rows k) = some label) :
    countInstance entrySet rows.length rows k = .ok label := by
  obtain ⟨max, hmax, rfl⟩ := Option.map_eq_some_iff.mp helect
  rw [countInstance, foldlM_countVote hrect hk le_rfl, ok_bind, List.take_length, hmax]
  rfl

/-- On a rectangular matrix `countVotes` elects a label of each column. -/
theorem countVotes_spec (horder : ∀ entries, (entrySet entries).Perm entries)
    (hne : rows ≠ []) (hrect : ∀ row ∈ rows, row.length = m) :
    ∃ labels, countVotes entrySet rows.length rows = .ok labels ∧ labels.length = m ∧
      ∀ k < m, labels[k]? = elect entrySet (column rows k) := by
  have helect : ∀ k < m, elect entrySet (column rows k) =
      some ((elect entrySet (column rows k)).getD 0) := by
    intro k hk
    have hcolumn : column rows k ≠ [] := by
      rw [← List.length_pos_iff, column_length hrect hk]
      exact List.length_pos_iff.mpr hne
    obtain ⟨label, hlabel, -⟩ := elect_spec horder hcolumn
    rw [hlabel, Option.getD_some]
  have hrounds : ∀ k ∈ List.range m, countInstance entrySet rows.length rows k =
      .ok ((elect entrySet (column rows k)).getD 0) := fun k hk =>
    countInstance_eq hrect (List.mem_range.mp hk) (helect k (List.mem_range.mp hk))
  have hfirst : 0 < rows.length := List.length_pos_iff.mpr hne
  refine ⟨(List.range m).map fun k => (elect entrySet (column rows k)).getD 0, ?_, by simp, ?_⟩
  · rw [countVotes, listGet_of_lt hfirst, ok_bind, hrect _ (List.getElem_mem hfirst),
      mapM_eq_ok hrounds]
  · intro k hk
    rw [List.getElem?_map, List.getElem?_range hk, Option.map_some, ← helect k hk]

end Votes

/-- The class `RandomForest`: the number of trees and their roots. -/
structure RandomForest (D : Type) where
  N : Nat
  trees : List (DTNode D)

namespace RandomForest

variable {D : Type} [Arith D]

/-- `classify`. -/
def classify (entrySet : Entries Int32 Nat → Entries Int32 Nat) (this : RandomForest D)
    (testingInstances : List CandleStick) : Except Exception (List Int32) := do
  let treesPredictedLabels ← (List.range this.N).mapM fun i => do
    let tree ← listGet this.trees i
    classifyTree tree testingInstances
  countVotes entrySet this.N treesPredictedLabels

/-- The number of trees that predict `label` for the candle. -/
def votesFor (trees : List (DTNode D)) (cs : CandleStick) (label : Int32) : Nat :=
  trees.countP fun tree => findMatch tree cs = .ok label

/-- The label is predicted by some tree and by at least as many trees as any
other, and no other label has a majority. -/
structure Plurality (trees : List (DTNode D)) (cs : CandleStick) (label : Int32) : Prop where
  voted : 0 < votesFor trees cs label
  most : ∀ other, votesFor trees cs other ≤ votesFor trees cs label
  majority : ∀ other, trees.length < 2 * votesFor trees cs other → other = label

/-- The label that a tree answers, if it does. -/
def predicted (tree : DTNode D) (cs : CandleStick) : Int32 :=
  match findMatch tree cs with
  | .ok label => label
  | .error _ => 0

/-- Where a tree answers, its answer is the predicted label. -/
theorem findMatch_predicted {tree : DTNode D} {cs : CandleStick}
    (h : ∃ label, findMatch tree cs = .ok label) : findMatch tree cs = .ok (predicted tree cs) := by
  obtain ⟨label, hlabel⟩ := h
  rw [predicted, hlabel]

omit [Arith D] in
/-- A loop over the positions of a list meets its elements. -/
theorem map_getD_range {β : Type} (f : DTNode D → β) (trees : List (DTNode D)) :
    (List.range trees.length).map (fun i => f (trees.getD i .null)) = trees.map f := by
  apply List.ext_getElem (by simp)
  intro i h1 h2
  have hlt : i < trees.length := by simpa using h1
  simp [hlt]

/-- Trees that answer the candles are asked without failure. -/
theorem mapM_classify {trees : List (DTNode D)} {testingInstances : List CandleStick}
    (hanswers : ∀ tree ∈ trees, ∀ cs ∈ testingInstances, ∃ label, findMatch tree cs = .ok label) :
    ((List.range trees.length).mapM fun i => do
      let tree ← listGet trees i
      classifyTree tree testingInstances) =
    .ok (trees.map fun tree => testingInstances.map (predicted tree)) := by
  have hrounds : ∀ i ∈ List.range trees.length, (do
      let tree ← listGet trees i
      classifyTree tree testingInstances) =
      .ok (testingInstances.map (predicted (trees.getD i .null))) := by
    intro i hi
    have hlt := List.mem_range.mp hi
    rw [listGet_of_lt hlt, ok_bind, classifyTree, List.getD_eq_getElem _ _ hlt]
    exact mapM_eq_ok fun cs hcs =>
      findMatch_predicted (hanswers _ (List.getElem_mem hlt) cs hcs)
  rw [mapM_eq_ok hrounds, map_getD_range fun tree => testingInstances.map (predicted tree)]

section Answering

variable {trees : List (DTNode D)}
  (hanswers : ∀ tree ∈ trees, ∀ cs, ∃ label, findMatch tree cs = .ok label)
include hanswers

/-- When all trees answer, the votes for a label are its occurrences among the
answers. -/
theorem votesFor_eq_count (cs : CandleStick) (label : Int32) :
    votesFor trees cs label = (trees.map fun tree => predicted tree cs).count label := by
  rw [votesFor, List.count, List.countP_map]
  apply List.countP_congr
  intro tree htree
  rw [findMatch_predicted (hanswers tree htree cs)]
  simp

/-- Two different labels share the trees. -/
theorem votesFor_add_le (cs : CandleStick) {label other : Int32} (hne : other ≠ label) :
    votesFor trees cs other + votesFor trees cs label ≤ trees.length := by
  have hlength : (trees.map fun tree => predicted tree cs).length = trees.length :=
    List.length_map _
  rw [votesFor_eq_count hanswers, votesFor_eq_count hanswers, ← hlength]
  exact count_add_count_le _ hne

end Answering

/-- **Plurality vote.**  In any order of iteration of the vote map, a forest of
trees grown from non-empty lists returns one label per candle, in order, and
each is a plurality label of its candle. -/
theorem classify_plurality {entrySet : Entries Int32 Nat → Entries Int32 Nat}
    (horder : ∀ entries, (entrySet entries).Perm entries) (forest : RandomForest D)
    (hN : 1 ≤ forest.N) (hsize : forest.trees.length = forest.N)
    (hgrown : ∀ tree ∈ forest.trees, ∃ stopsAtOne featureIdx trainInstances,
      trainInstances ≠ [] ∧ tree = growTree calcEntropy stopsAtOne featureIdx trainInstances)
    (testingInstances : List CandleStick) :
    ∃ predictedLabels, forest.classify entrySet testingInstances = .ok predictedLabels ∧
      List.Forall₂ (Plurality forest.trees) testingInstances predictedLabels := by
  have hanswers : ∀ tree ∈ forest.trees, ∀ cs, ∃ label, findMatch tree cs = .ok label := by
    intro tree htree cs
    obtain ⟨stopsAtOne, featureIdx, trainInstances, hne, rfl⟩ := hgrown tree htree
    obtain ⟨x, -, hx⟩ := findMatch_growTree (calcEntropy : List CandleStick → D) stopsAtOne
      featureIdx hne cs
    exact ⟨x.label, hx⟩
  have htrees : forest.trees ≠ [] := by
    rw [← List.length_pos_iff, hsize]
    exact hN
  have hrect : ∀ row ∈ forest.trees.map fun tree => testingInstances.map (predicted tree),
      row.length = testingInstances.length := by
    intro row hrow
    obtain ⟨tree, -, rfl⟩ := List.mem_map.mp hrow
    exact List.length_map _
  obtain ⟨labels, hlabels, hlength, helected⟩ :=
    countVotes_spec horder (by simpa using htrees) hrect
  rw [List.length_map, hsize] at hlabels
  refine ⟨labels, ?_, ?_⟩
  · rw [classify, ← hsize, mapM_classify fun tree htree cs _ => hanswers tree htree cs, ok_bind,
      hsize, hlabels]
  · rw [List.forall₂_iff_get]
    refine ⟨hlength.symm, fun k hk hk' => ?_⟩
    have hcolumn : column (forest.trees.map fun tree => testingInstances.map (predicted tree)) k =
        forest.trees.map fun tree => predicted tree testingInstances[k] := by
      simp [column, List.filterMap_map, hk]
    have hne : forest.trees.map (fun tree => predicted tree testingInstances[k]) ≠ [] := by
      simpa using htrees
    obtain ⟨label, hlabel, hpos, hmost⟩ := elect_spec horder hne
    have hat := helected k hk
    rw [hcolumn, hlabel, List.getElem?_eq_getElem hk', Option.some_inj] at hat
    simp only [List.get_eq_getElem, hat]
    have hmost' : ∀ other, votesFor forest.trees testingInstances[k] other ≤
        votesFor forest.trees testingInstances[k] label := by
      intro other
      rw [votesFor_eq_count hanswers, votesFor_eq_count hanswers]
      exact hmost other
    refine ⟨by rwa [votesFor_eq_count hanswers], hmost', fun other hmajority => ?_⟩
    by_contra hother
    have hshare := votesFor_add_le hanswers testingInstances[k] hother
    have hle := hmost' other
    omega

section ThreeTrees

/-- Three trees that disagree: two of them have seen one candle of the pair each,
the third one has seen both and tells them apart by their highs. -/
def threeTrees (D : Type) [Arith D] : List (DTNode D) :=
  [growTree calcEntropy false [0, 1] [fallingCandle],
    growTree calcEntropy false [0, 1] [risingCandle],
    growTree calcEntropy false [1] candlePair]

/-- A tree that has seen one candle is grown from a non-empty list with its label. -/
theorem grown_singleton (stopsAtOne : Bool) (featureIdx : List Int) {x : CandleStick}
    (hx : IsLabel x.label) : ∃ stopsAtOne' featureIdx' trainInstances,
    trainInstances ≠ [] ∧ (∀ cs ∈ trainInstances, IsLabel cs.label) ∧
      (growTree calcEntropy stopsAtOne featureIdx [x] : DTNode D) =
        growTree calcEntropy stopsAtOne' featureIdx' trainInstances := by
  refine ⟨stopsAtOne, featureIdx, [x], List.cons_ne_nil _ _, fun cs hcs => ?_, rfl⟩
  rw [List.mem_singleton.mp hcs]
  exact hx

/-- The three trees are grown from non-empty lists with the three labels. -/
theorem threeTrees_grown : ∀ tree ∈ threeTrees D, ∃ stopsAtOne featureIdx trainInstances,
    trainInstances ≠ [] ∧ (∀ cs ∈ trainInstances, IsLabel cs.label) ∧
      tree = growTree calcEntropy stopsAtOne featureIdx trainInstances := by
  intro tree htree
  simp only [threeTrees, List.mem_cons, List.not_mem_nil, or_false] at htree
  rcases htree with rfl | rfl | rfl
  · exact grown_singleton false [0, 1] (candlePair_labels _ List.mem_cons_self)
  · exact grown_singleton false [0, 1]
      (candlePair_labels _ (List.mem_cons_of_mem _ List.mem_cons_self))
  · exact ⟨_, _, _, List.cons_ne_nil _ _, candlePair_labels, rfl⟩

/-- A tree that has seen one candle answers with its label. -/
theorem findMatch_singleton (stopsAtOne : Bool) (featureIdx : List Int) (x cs : CandleStick) :
    findMatch (growTree calcEntropy stopsAtOne featureIdx [x] : DTNode Exact) cs = .ok x.label :=
  (grown_growTree calcEntropy stopsAtOne featureIdx [x]).findMatch_singleton cs

/-- The tree that has seen both candles answers each with its own label. -/
theorem findMatch_candlePair {cs : CandleStick} (hcs : cs ∈ candlePair) :
    findMatch (growTree calcEntropy false [1] candlePair : DTNode Exact) cs = .ok cs.label :=
  (trainedRight_of_noTies false (List.cons_ne_nil _ _) (by decide) candlePair_labels
    (List.cons_ne_nil _ _) (by simp [IsFeature]) (by decide +kernel)).1 cs hcs

/-- The votes of the three trees for a candle of the pair: one to fall, one to
rise, and its own label. -/
theorem votesFor_threeTrees {cs : CandleStick} (hcs : cs ∈ candlePair) (label : Int32) :
    votesFor (threeTrees Exact) cs label = [-1, 1, cs.label].count label := by
  simp only [votesFor, threeTrees, List.countP_cons, List.countP_nil, findMatch_singleton,
    findMatch_candlePair hcs, List.count_cons, List.count_nil, Except.ok.injEq,
    decide_eq_true_eq, beq_iff_eq]
  rfl

/-- The majority of the trees has its way on both candles. -/
theorem classify_plurality_threeTrees :
    ∃ predictedLabels,
      (RandomForest.mk 3 (threeTrees Exact)).classify HashMap.entrySet candlePair =
        .ok predictedLabels ∧
      List.Forall₂ (Plurality (threeTrees Exact)) candlePair predictedLabels ∧
      predictedLabels = [-1, 1] := by
  obtain ⟨predictedLabels, hclassify, hplurality⟩ := classify_plurality HashMap.entrySet_perm
    (RandomForest.mk 3 (threeTrees Exact)) (by decide) rfl
    (fun tree htree => by
      obtain ⟨stopsAtOne, featureIdx, trainInstances, hne, -, htree⟩ := threeTrees_grown tree htree
      exact ⟨stopsAtOne, featureIdx, trainInstances, hne, htree⟩)
    candlePair
  refine ⟨predictedLabels, hclassify, hplurality, ?_⟩
  have hown := hplurality
  rw [candlePair, List.forall₂_cons_left_iff] at hown
  obtain ⟨falling, rest, hfalling, hrest, rfl⟩ := hown
  rw [List.forall₂_cons_left_iff] at hrest
  obtain ⟨rising, tail, hrising, htail, rfl⟩ := hrest
  rw [List.forall₂_nil_left_iff.mp htail,
    ← hfalling.majority (-1) (by rw [votesFor_threeTrees List.mem_cons_self]; decide),
    ← hrising.majority 1
      (by rw [votesFor_threeTrees (List.mem_cons_of_mem _ List.mem_cons_self)]; decide)]

end ThreeTrees

end RandomForest

end Forex
