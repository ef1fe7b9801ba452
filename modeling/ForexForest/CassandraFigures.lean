import ForexForest.CassandraForest

/-!
# When the stored figures are true

The vote of the Cassandra forest returns the objects of its keys, which are
boxes of predictions, so the testing rows that `main` counts are again those
whose correct prediction shares a box (`main_spec`).  Hence the accuracies are
true exactly when no correct prediction was of a larger label, and the precision
when also nothing was counted or exactly 2000 rows were tested.
-/

namespace Forex

open Java

section Simulation

variable {α β : Type}

theorem listGet_map_eq_ok {f : α → β} {l : List α} {i : Nat} {b : β}
    (h : listGet (l.map f) i = .ok b) : ∃ a ∈ l, listGet l i = .ok a ∧ f a = b := by
  rw [listGet, List.getElem?_map] at h
  cases hget : l[i]? with
  | none =>
      rw [hget] at h
      cases h
  | some a =>
      rw [hget] at h
      refine ⟨a, List.mem_of_getElem? hget, ?_, Except.ok.inj h⟩
      rw [listGet, hget]
      rfl

/-- Counting with one more condition counts the same when the condition holds
wherever the first one does. -/
theorem countP_and_eq_iff {p q : α → Prop} [DecidablePred p] [DecidablePred q] (l : List α) :
    l.countP (fun x => p x ∧ q x) = l.countP (fun x => p x) ↔ ∀ x ∈ l, p x → q x := by
  have hfilter : l.countP (fun x => p x ∧ q x) = (l.filter fun x => p x).countP fun x => q x := by
    rw [List.countP_filter]
    apply List.countP_congr
    intro x _
    simp [and_comm]
  rw [hfilter, List.countP_eq_length_filter (p := fun x => decide (p x)), List.countP_eq_length]
  simp

theorem countP_and_le {p q : α → Prop} [DecidablePred p] [DecidablePred q] (l : List α) :
    l.countP (fun x => p x ∧ q x) ≤ l.countP fun x => p x :=
  List.countP_mono_left fun x _ h => by simpa using (show p x ∧ q x by simpa using h).1

theorem quotient_eq_iff {a b n : Nat} (ha : a ≤ n) (hb : b ≤ n) :
    quotient a n = quotient b n ↔ a = b := by
  constructor
  · intro h
    by_cases hn : n = 0
    · omega
    · have hpos : (n : ℚ) ≠ 0 := by exact_mod_cast hn
      rw [quotient, quotient, if_neg hn, if_neg hn, Option.some_inj, div_left_inj' hpos] at h
      exact_mod_cast h
  · intro h
    rw [h]

/-- Over a greater denominator a smaller count gives the same fraction only when
nothing was counted or nothing is smaller. -/
theorem quotient_eq_of_le {a b m n : Nat} (hab : a ≤ b) (hn : 0 < n) (hnm : n ≤ m) :
    quotient a m = quotient b n ↔ 0 < b → a = b ∧ n = m := by
  have hm : m ≠ 0 := by omega
  have hpos : (n : ℚ) ≠ 0 := by exact_mod_cast hn.ne'
  have hpos' : (m : ℚ) ≠ 0 := by exact_mod_cast hm
  have hcross : quotient a m = quotient b n ↔ a * n = b * m := by
    rw [quotient, quotient, if_neg hm, if_neg hn.ne', Option.some_inj, div_eq_div_iff hpos' hpos]
    norm_cast
  rw [hcross]
  constructor
  · intro heq hb
    have hsize : n = m := by
      by_contra hne
      have hlt : b * n < b * m := Nat.mul_lt_mul_of_pos_left (by omega) hb
      have hle : a * n ≤ b * n := Nat.mul_le_mul_right n hab
      omega
    rw [hsize] at heq
    exact ⟨Nat.eq_of_mul_eq_mul_right (by omega) heq, hsize⟩
  · intro h
    by_cases hb : b = 0
    · obtain rfl : a = 0 := by omega
      rw [hb, Nat.zero_mul, Nat.zero_mul]
    · obtain ⟨rfl, rfl⟩ := h (by omega)
      rfl

end Simulation

namespace Cassandra

section Votes

variable {order : IterationOrder} {rows : List (List Integer)} {P : Integer → Prop}

/-- The predictions without the identities of their boxes. -/
def valueRows (rows : List (List Integer)) : List (List Int32) :=
  rows.map fun row => row.map Integer.intValue

/-- One vote on objects follows the vote on their values. -/
theorem countVote_follows (hrows : ∀ row ∈ rows, ∀ label ∈ row, P label) {k i : Nat}
    {votes : Entries Integer Nat} (hvotes : ∀ e ∈ votes, P e.1) {result : Entries Int32 Nat}
    (h : Forex.countVote (valueRows rows) k (keyValues votes) i = .ok result) :
    ∃ boxed, countVote rows k votes i = .ok boxed ∧ keyValues boxed = result ∧
      ∀ e ∈ boxed, P e.1 := by
  obtain ⟨valueRow, hrow, h⟩ := bind_eq_ok h
  obtain ⟨value, hvalue, h⟩ := bind_eq_ok h
  obtain ⟨row, hrowMem, hrowGet, rfl⟩ := listGet_map_eq_ok hrow
  obtain ⟨label, hlabelMem, hlabelGet, rfl⟩ := listGet_map_eq_ok hvalue
  refine ⟨boxedVote votes label, ?_, ?_, fun e he => ?_⟩
  · rw [countVote, hrowGet, ok_bind, hlabelGet]
    rfl
  · rw [keyValues_boxedVote]
    exact Except.ok.inj h
  · obtain heq | ⟨old, hold, hkey⟩ := mem_boxedVote he
    · rw [heq]
      exact hrows row hrowMem label hlabelMem
    · rw [← hkey]
      exact hvotes old hold

/-- One election on objects returns the object of a key with the elected value. -/
theorem countInstance_follows (hrows : ∀ row ∈ rows, ∀ label ∈ row, P label) {N k : Nat}
    {value : Int32}
    (h : Forex.countInstance order.entrySet N (valueRows rows) k = .ok value) :
    ∃ label, countInstance order N rows k = .ok label ∧ label.intValue = value ∧ P label := by
  obtain ⟨votes, hvotes, h⟩ := bind_eq_ok h
  have hround : ∀ (boxed : Entries Integer Nat) votes i next,
      (keyValues boxed = votes ∧ ∀ e ∈ boxed, P e.1) →
      Forex.countVote (valueRows rows) k votes i = .ok next →
      ∃ after, countVote rows k boxed i = .ok after ∧ keyValues after = next ∧
        ∀ e ∈ after, P e.1 := by
    rintro boxed _ i next ⟨rfl, hkeys⟩ hnext
    exact countVote_follows hrows hkeys hnext
  obtain ⟨boxed, hboxed, rfl, hkeys⟩ := foldlM_follows hround
    ⟨rfl, fun e he => absurd he List.not_mem_nil⟩ hvotes
  rw [← order.keyValues_boxedEntrySet, maxEntry_keyValues] at h
  cases hmax : maxEntry (order.boxedEntrySet boxed) with
  | none =>
      rw [hmax] at h
      cases h
  | some e =>
      rw [hmax] at h
      have hmem : e ∈ boxed := by
        have hperm := Shuffle.apply_perm (order (keyValues boxed).keys) boxed
        exact hperm.mem_iff.mp (maxEntry_eq_some_iff.mp hmax).mem
      refine ⟨e.1, ?_, Except.ok.inj h, hkeys e hmem⟩
      rw [countInstance, hboxed, ok_bind, hmax]
      rfl

/-- The vote on objects elects objects of the predictions, with the values that
the vote on values elects. -/
theorem countVotes_follows (hrows : ∀ row ∈ rows, ∀ label ∈ row, P label) {N : Nat}
    {elected : List Int32}
    (h : Forex.countVotes order.entrySet N (valueRows rows) = .ok elected) :
    ∃ labels, countVotes order N rows = .ok labels ∧
      labels.map Integer.intValue = elected ∧ ∀ label ∈ labels, P label := by
  obtain ⟨valueRow, hrow, h⟩ := bind_eq_ok h
  obtain ⟨first, -, hfirst, rfl⟩ := listGet_map_eq_ok hrow
  rw [List.length_map] at h
  obtain ⟨labels, hlabels, hall⟩ := mapM_follows (f := countInstance order N rows)
    (fun k _ value hk => countInstance_follows hrows hk) h
  refine ⟨labels, ?_, ?_, fun label hlabel => ?_⟩
  · rw [countVotes, hfirst, ok_bind, hlabels]
  · rw [← List.forall₂_eq_eq_eq, List.forall₂_map_left_iff]
    exact hall.imp fun _ _ h => h.1
  · obtain ⟨value, -, -, hP⟩ := exists_of_forall₂ hall.flip hlabel
    exact hP

end Votes

section Figures

variable {D : Type} [Arith D]

/-- Trees that answer the candles predict the same matrix on objects as on values,
in boxes made for it. -/
theorem predictions_spec {trees : List (Forest.DecisionTree D)}
    {testingInstances : List CandleStick}
    (hanswers : ∀ tree ∈ trees.map Forest.DecisionTree.root,
      ∀ cs ∈ testingInstances.map CandleStick.values, ∃ label, findMatch tree cs = .ok label)
    (next : Nat) :
    ∃ rows after,
      ((List.range trees.length).mapM fun i => do
        let tree ← StateT.lift (listGet trees i)
        classifyTree tree.root testingInstances : Alloc (List (List Integer))) next =
          .ok (rows, after) ∧
      valueRows rows = (trees.map Forest.DecisionTree.root).map
        (fun tree => (testingInstances.map CandleStick.values).map (RandomForest.predicted tree)) ∧
      ∀ row ∈ rows, ∀ label ∈ row, label.From next := by
  set roots := trees.map Forest.DecisionTree.root with hroots
  set predictions := fun tree : DTNode D =>
    (testingInstances.map CandleStick.values).map (RandomForest.predicted tree) with hpredictions
  have hround : ∀ i ∈ List.range trees.length, ∀ next, ∃ row after,
      (do
        let tree ← StateT.lift (listGet trees i)
        classifyTree tree.root testingInstances : Alloc (List Integer)) next = .ok (row, after) ∧
      (predictions (roots.getD i .null) = row.map Integer.intValue ∧
        ∀ label ∈ row, label.From next) ∧ next ≤ after := by
    intro i hi next
    have hlt := List.mem_range.mp hi
    have hroot : roots.getD i .null = trees[i].root := by simp [hroots, hlt]
    have hanswer := hanswers trees[i].root (List.mem_map_of_mem (List.getElem_mem hlt))
    obtain ⟨row, after, hrow, hvalues, hfrom, hafter⟩ := classifyTree_spec hanswer next
    refine ⟨row, after, (alloc_lift (listGet_of_lt hlt)).trans hrow, ⟨?_, hfrom⟩, hafter⟩
    rw [hroot, hvalues]
  obtain ⟨rows, after, hrows, hall, -⟩ := alloc_mapM
    (R := fun next i (row : List Integer) =>
      predictions (roots.getD i .null) = row.map Integer.intValue ∧
        ∀ label ∈ row, label.From next)
    (fun _ _ _ _ hle h => ⟨h.1, fun label hlabel => (h.2 label hlabel).mono hle⟩) hround next
  refine ⟨rows, after, hrows, ?_, ?_⟩
  · have hpairs := hall.imp fun _ _ h => h.1
    rw [← RandomForest.map_getD_range, hroots, List.length_map]
    exact (map_eq_of_forall₂ hpairs).symm
  · intro row hrow
    obtain ⟨i, -, -, hlabels⟩ := exists_of_forall₂ hall hrow
    exact hlabels

/-- Trees that answer the candles elect one label for each, on objects as on
values. -/
theorem classify_spec (order : IterationOrder) {trees : List (Forest.DecisionTree D)}
    (hne : trees ≠ []) {testingInstances : List CandleStick}
    (hanswers : ∀ tree ∈ trees.map Forest.DecisionTree.root,
      ∀ cs ∈ testingInstances.map CandleStick.values, ∃ label, findMatch tree cs = .ok label)
    (next : Nat) :
    ∃ elected labels after,
      (RandomForest.mk trees.length (trees.map Forest.DecisionTree.root)).classify order.entrySet
        (testingInstances.map CandleStick.values) = .ok elected ∧
      classify order trees.length trees testingInstances next = .ok (labels, after) ∧
      labels.map Integer.intValue = elected ∧ elected.length = testingInstances.length ∧
      ∀ label ∈ labels, label.From next := by
  obtain ⟨rows, after, hrows, hvalues, hfrom⟩ := predictions_spec hanswers next
  -- the matrix of values is rectangular, so the vote on it returns
  have hrect : ∀ row ∈ valueRows rows, row.length = testingInstances.length := by
    rw [hvalues]
    intro row hrow
    obtain ⟨tree, -, rfl⟩ := List.mem_map.mp hrow
    rw [List.length_map, List.length_map]
  have hlength : (valueRows rows).length = trees.length := by
    rw [hvalues, List.length_map, List.length_map]
  obtain ⟨elected, helected, helectedLength, -⟩ := countVotes_spec order.entrySet_perm
    (by rwa [← List.length_pos_iff, hlength, List.length_pos_iff]) hrect
  rw [hlength] at helected
  obtain ⟨labels, hlabels, hsame, hlabelsFrom⟩ := countVotes_follows hfrom helected
  refine ⟨elected, labels, after, ?_, ?_, hsame, helectedLength, hlabelsFrom⟩
  · have hmatrix := RandomForest.mapM_classify hanswers
    rw [List.length_map] at hmatrix
    rw [RandomForest.classify, hmatrix, ok_bind, ← hvalues]
    exact helected
  · refine (alloc_bind hrows).trans ?_
    rw [hlabels]
    rfl

variable (shuffle shuffleFeatures : Nat → Shuffle) (order : IterationOrder) (N : Int32)

/-- The candles of the rows that the query returns. -/
def resultSet (forex : List ForexRow) : List Forex.CandleStick :=
  (forex.take 10000).map ForexRow.values

/-- The rows that the forest is trained on. -/
def trainingRows (forex : List ForexRow) : List Forex.CandleStick := (resultSet forex).take 8000

/-- The rows that the forest is tested on. -/
def testingRows (forex : List ForexRow) : List Forex.CandleStick := (resultSet forex).drop 8000

/-- What the forest predicts for the testing rows, as numbers. -/
def forestClassify (D : Type) [Arith D] (forex : List ForexRow) : Except Exception (List Int32) :=
  RandomForest.classify order.entrySet
    (RandomForest.mk N.toInt.toNat ((List.range N.toInt.toNat).map
      (treeOf (D := D) shuffle shuffleFeatures (trainingRows forex)))) (testingRows forex)

/-- **A whole run.**  Except on a single row, `main` returns; its figures count
the pairs that share a box. -/
theorem main_spec (hN : 0 < N.toInt) {forex : List ForexRow}
    (hone : (resultSet forex).length ≠ 1) (next : Nat) :
    ∃ elected after, forestClassify shuffle shuffleFeatures order N D forex = .ok elected ∧
      elected.length = (testingRows forex).length ∧
      main D shuffle shuffleFeatures order N forex next =
        .ok (⟨(List.range N.toInt.toNat).map
            (recordedAccuracy shuffle shuffleFeatures D (trainingRows forex)),
          quotient (((testingRows forex).zip elected).countP
            fun pair => pair.1.label = pair.2 ∧ IsCached pair.1.label) 2000⟩, after) := by
  obtain ⟨candles, loaded, hload, hvalues, hbefore⟩ := load_spec (forex.take 10000) next
  change _ = resultSet forex at hvalues
  have hlength : candles.length = (resultSet forex).length := by
    rw [← hvalues, List.length_map]
  have htraining : (candles.take 8000).map CandleStick.values = trainingRows forex := by
    rw [List.map_take, hvalues, trainingRows]
  have htesting : (candles.drop 8000).map CandleStick.values = testingRows forex := by
    rw [List.map_drop, hvalues, testingRows]
  have hsize : (candles.take 8000).length ≠ 1 ∧ (candles.take 8000).length < 2 ^ 30 := by
    rw [List.length_take]
    omega
  obtain ⟨trained, hforest, htrained⟩ := buildForest_spec (D := D) shuffle shuffleFeatures N
    hsize.1 hsize.2 fun cs hcs => hbefore cs (List.mem_of_mem_take hcs)
  have hroots := roots_stateAfter (D := D) shuffle shuffleFeatures (candles.take 8000)
    N.toInt.toNat
  have htrees := length_trees_stateAfter (D := D) shuffle shuffleFeatures (candles.take 8000)
    N.toInt.toNat
  rw [htraining] at hroots
  have hanswers : ∀ tree ∈ (stateAfter shuffle shuffleFeatures D (candles.take 8000)
      N.toInt.toNat).trees.map Forest.DecisionTree.root,
      ∀ cs ∈ (candles.drop 8000).map CandleStick.values,
        ∃ label, findMatch tree cs = .ok label := by
    rw [hroots]
    intro tree htree
    obtain ⟨i, -, rfl⟩ := List.mem_map.mp htree
    apply treeOf_answers
    · rw [← htraining, List.length_map]
      exact hsize.1
    · -- without training rows there are no rows at all
      intro hnil
      rw [← htraining, List.map_eq_nil_iff, List.take_eq_nil_iff] at hnil
      rw [hnil.resolve_left (by norm_num), List.drop_nil, List.map_nil]
  have hne : (stateAfter shuffle shuffleFeatures D (candles.take 8000)
      N.toInt.toNat).trees ≠ [] := by
    rw [← List.length_pos_iff, htrees]
    omega
  obtain ⟨elected, labels, after, helected, hlabels, hsame, helectedLength, hfrom⟩ :=
    classify_spec order hne hanswers trained
  rw [hroots, htrees, htesting] at helected
  rw [htrees] at hlabels
  have hcount := countMatches_boxed
    (by rw [← helectedLength, ← hsame, List.length_map])
    (fun cs hcs => (hbefore cs (List.mem_of_mem_drop hcs)).mono htrained) hfrom
  rw [htesting, hsame] at hcount
  refine ⟨elected, after, helected, ?_, ?_⟩
  · rw [helectedLength, ← htesting, List.length_map]
  · refine (alloc_bind hload).trans ?_
    refine (alloc_bind hforest).trans ?_
    refine (alloc_bind hlabels).trans ?_
    refine (alloc_lift hcount).trans ?_
    rw [← htraining]
    rfl

/-- On a single row training fails, and `main` with it. -/
theorem main_fails (hN : 0 < N.toInt) {forex : List ForexRow}
    (hone : (resultSet forex).length = 1) (next : Nat) (result : Figures × Nat) :
    main D shuffle shuffleFeatures order N forex next ≠ .ok result := by
  intro h
  obtain ⟨candles, loaded, hload, hvalues, -⟩ := load_spec (forex.take 10000) next
  change _ = resultSet forex at hvalues
  have hlength : (candles.take 8000).length = 1 := by
    rw [List.length_take, ← List.length_map CandleStick.values, hvalues, hone]
    rfl
  have htrain := (alloc_bind hload).symm.trans h
  obtain ⟨forest, hforest, -⟩ := bind_eq_ok htrain
  exact buildForest_fails shuffle shuffleFeatures hN hlength loaded forest hforest

/-- The figures are those of the numbers: every accuracy is the fraction of the
held-out rows that the tree labels correctly, and if rows were tested, the
precision is the fraction of them that the forest labels correctly. -/
structure TrueFigures (D : Type) [Arith D] (forex : List ForexRow) (figures : Figures) : Prop where
  stats : figures.stats = (List.range N.toInt.toNat).map fun i =>
    quotient (RandomForest.correctCount
        (treeOf (D := D) shuffle shuffleFeatures (trainingRows forex) i)
        (RandomForest.heldOut shuffle (trainingRows forex) i))
      (RandomForest.heldOut shuffle (trainingRows forex) i).length
  precision : 8000 < (resultSet forex).length → ∃ elected,
    forestClassify shuffle shuffleFeatures order N D forex = .ok elected ∧
    figures.precision = quotient (((testingRows forex).zip elected).countP
      fun pair => pair.1.label = pair.2) (testingRows forex).length

/-- No correct prediction is of a label without a shared box, and a correct
prediction for a testing row comes with exactly 2000 such rows. -/
structure CorrectOnlyShared (D : Type) [Arith D] (forex : List ForexRow) : Prop where
  heldOut : ∀ i < N.toInt.toNat, ∀ cs ∈ RandomForest.heldOut shuffle (trainingRows forex) i,
    findMatch (treeOf (D := D) shuffle shuffleFeatures (trainingRows forex) i) cs =
      .ok cs.label → IsCached cs.label
  testing : 8000 < (resultSet forex).length → ∀ elected,
    forestClassify shuffle shuffleFeatures order N D forex = .ok elected →
    ∀ pair ∈ (testingRows forex).zip elected, pair.1.label = pair.2 →
      IsCached pair.1.label ∧ (resultSet forex).length = 10000

variable {shuffle shuffleFeatures order N}

/-- The two counts of one tree agree when every correct prediction shares its
box. -/
theorem recordedAccuracy_eq_iff {instances : List Forex.CandleStick} {i : Nat} :
    recordedAccuracy shuffle shuffleFeatures D instances i =
        quotient (RandomForest.correctCount
            (treeOf (D := D) shuffle shuffleFeatures instances i)
            (RandomForest.heldOut shuffle instances i))
          (RandomForest.heldOut shuffle instances i).length ↔
      ∀ cs ∈ RandomForest.heldOut shuffle instances i,
        findMatch (treeOf (D := D) shuffle shuffleFeatures instances i) cs = .ok cs.label →
          IsCached cs.label := by
  rw [recordedAccuracy, sharedCount, RandomForest.correctCount,
    quotient_eq_iff List.countP_le_length List.countP_le_length]
  exact countP_and_eq_iff _

/-- The figures of a run are true exactly when no correct prediction is lost. -/
theorem trueFigures_iff {forex : List ForexRow} {elected : List Int32}
    (helected : forestClassify shuffle shuffleFeatures order N D forex = .ok elected) :
    TrueFigures shuffle shuffleFeatures order N D forex
        ⟨(List.range N.toInt.toNat).map
            (recordedAccuracy shuffle shuffleFeatures D (trainingRows forex)),
          quotient (((testingRows forex).zip elected).countP
            fun pair => pair.1.label = pair.2 ∧ IsCached pair.1.label) 2000⟩ ↔
      CorrectOnlyShared shuffle shuffleFeatures order N D forex := by
  have hstats : ((List.range N.toInt.toNat).map
        (recordedAccuracy shuffle shuffleFeatures D (trainingRows forex)) =
      (List.range N.toInt.toNat).map fun i =>
        quotient (RandomForest.correctCount
            (treeOf (D := D) shuffle shuffleFeatures (trainingRows forex) i)
            (RandomForest.heldOut shuffle (trainingRows forex) i))
          (RandomForest.heldOut shuffle (trainingRows forex) i).length) ↔
      ∀ i < N.toInt.toNat, ∀ cs ∈ RandomForest.heldOut shuffle (trainingRows forex) i,
        findMatch (treeOf (D := D) shuffle shuffleFeatures (trainingRows forex) i) cs =
          .ok cs.label → IsCached cs.label := by
    rw [List.map_inj_left]
    simp only [List.mem_range, recordedAccuracy_eq_iff]
  have hlimit : (resultSet forex).length ≤ 10000 := by
    rw [resultSet, List.length_map, List.length_take]
    exact min_le_left _ _
  have htested : (testingRows forex).length = (resultSet forex).length - 8000 :=
    List.length_drop
  have hprecision : 8000 < (resultSet forex).length →
      (quotient (((testingRows forex).zip elected).countP
          fun pair => pair.1.label = pair.2 ∧ IsCached pair.1.label) 2000 =
        quotient (((testingRows forex).zip elected).countP
          fun pair => pair.1.label = pair.2) (testingRows forex).length ↔
      ∀ pair ∈ (testingRows forex).zip elected, pair.1.label = pair.2 →
        IsCached pair.1.label ∧ (resultSet forex).length = 10000) := by
    intro hmany
    rw [quotient_eq_of_le (countP_and_le _) (by omega) (by omega), List.countP_pos_iff,
      countP_and_eq_iff]
    constructor
    · intro h pair hpair hcorrect
      obtain ⟨hshared, hsize⟩ := h ⟨pair, hpair, by simpa using hcorrect⟩
      exact ⟨hshared pair hpair hcorrect, by omega⟩
    · rintro h ⟨pair, hpair, hcorrect⟩
      have hsize := (h pair hpair (by simpa using hcorrect)).2
      exact ⟨fun other hother hsame => (h other hother hsame).1, by omega⟩
  constructor
  · intro h
    refine ⟨hstats.mp h.stats, fun hmany other hother => ?_⟩
    obtain ⟨labels, hlabels, hfraction⟩ := h.precision hmany
    obtain rfl : other = elected := Except.ok.inj (hother.symm.trans helected)
    obtain rfl : labels = other := Except.ok.inj (hlabels.symm.trans hother)
    exact (hprecision hmany).mp hfraction
  · intro h
    exact ⟨hstats.mpr h.heldOut, fun hmany =>
      ⟨elected, helected, (hprecision hmany).mpr (h.testing hmany elected helected)⟩⟩

/-- **A condition on the table alone.**  When the rows of the query have labels
with a shared box, and there are too few rows to test or all that the query asks
for, nothing that the trees or the forest predict can be lost. -/
theorem correctOnlyShared_of_cached {forex : List ForexRow}
    (hcached : ∀ row ∈ forex.take 10000, IsCached row.label)
    (hsize : forex.length ≤ 8000 ∨ 10000 ≤ forex.length) :
    CorrectOnlyShared shuffle shuffleFeatures order N D forex := by
  have hlength : (resultSet forex).length = min 10000 forex.length := by
    rw [resultSet, List.length_map, List.length_take]
  have hrows : ∀ cs ∈ resultSet forex, IsCached cs.label := by
    intro cs hcs
    obtain ⟨row, hrow, rfl⟩ := List.mem_map.mp hcs
    exact hcached row hrow
  refine ⟨fun i _ cs hcs _ => ?_, fun hmany elected _ pair hpair _ => ⟨?_, by omega⟩⟩
  · have hmem := (afterShuffles_perm _ _ _).mem_iff.mp (List.mem_of_mem_drop hcs)
    exact hrows cs (List.mem_of_mem_take hmem)
  · exact hrows pair.1 (List.mem_of_mem_drop (List.of_mem_zip hpair).1)

variable (shuffle shuffleFeatures order N)

/-- **The stored figures.**  For every table, every number of trees and every
sequence of shuffles: `main` returns unless the query finds a single row, and
the figures that it stores are true exactly when correct predictions are of
labels with a shared box and, for testing rows, there are 2000 of these. -/
theorem main_trueFigures_iff (hN : 0 < N.toInt) (forex : List ForexRow) (next : Nat) :
    ((∃ result, main D shuffle shuffleFeatures order N forex next = .ok result) ↔
      (resultSet forex).length ≠ 1) ∧
    ∀ figures after, main D shuffle shuffleFeatures order N forex next = .ok (figures, after) →
      (TrueFigures shuffle shuffleFeatures order N D forex figures ↔
        CorrectOnlyShared shuffle shuffleFeatures order N D forex) := by
  constructor
  · constructor
    · intro h hone
      obtain ⟨result, hresult⟩ := h
      exact main_fails shuffle shuffleFeatures order N hN hone next result hresult
    · intro hone
      obtain ⟨elected, after, -, -, hmain⟩ :=
        main_spec (D := D) shuffle shuffleFeatures order N hN hone next
      exact ⟨_, hmain⟩
  · intro figures after hfigures
    have hone : (resultSet forex).length ≠ 1 := fun hone =>
      main_fails shuffle shuffleFeatures order N hN hone next _ hfigures
    obtain ⟨elected, final, helected, -, hmain⟩ :=
      main_spec (D := D) shuffle shuffleFeatures order N hN hone next
    have hsame := Except.ok.inj (hfigures.symm.trans hmain)
    rw [(Prod.mk.inj hsame).1]
    exact trueFigures_iff helected

end Figures

section Rows

/-- A row of the table with the given label. -/
def rowLabelled (label : Int32) : ForexRow where
  time := lit "20150803 16:35"
  currency_pair := lit "USD/JPY"
  high_bid := Double.two
  low_bid := Double.one
  close_bid := Double.oneAndHalf
  label := label

theorem main_trueFigures_pair : ∃ figures after,
    main Exact (fun _ _ => 1) (fun _ _ => 1) (fun _ _ => 1) 1 [rowLabelled 1, rowLabelled 1] 0 =
      .ok (figures, after) ∧
    TrueFigures (fun _ _ => 1) (fun _ _ => 1) (fun _ _ => 1) 1 Exact
      [rowLabelled 1, rowLabelled 1] figures := by
  obtain ⟨hreturns, htrue⟩ := main_trueFigures_iff (D := Exact) (fun _ _ => 1) (fun _ _ => 1)
    (fun _ _ => 1) 1 (by decide) [rowLabelled 1, rowLabelled 1] 0
  obtain ⟨⟨figures, after⟩, hmain⟩ := hreturns.mpr (by decide)
  exact ⟨figures, after, hmain, (htrue figures after hmain).mpr
    (correctOnlyShared_of_cached (by decide) (Or.inl (by decide)))⟩

/-- Two rows labelled 1000: the tree predicts the label of the held-out row, but
its box is another one, and the accuracy 0 is recorded. -/
theorem large_label_not_counted : ∃ figures after,
    main Exact (fun _ _ => 1) (fun _ _ => 1) (fun _ _ => 1) 1
      [rowLabelled 1000, rowLabelled 1000] 0 = .ok (figures, after) ∧
    ¬ TrueFigures (fun _ _ => 1) (fun _ _ => 1) (fun _ _ => 1) 1 Exact
      [rowLabelled 1000, rowLabelled 1000] figures := by
  obtain ⟨elected, after, helected, -, hmain⟩ := main_spec (D := Exact) (fun _ _ => 1)
    (fun _ _ => 1) (fun _ _ => 1) 1 (by decide)
    (show (resultSet [rowLabelled 1000, rowLabelled 1000]).length ≠ 1 by decide) 0
  refine ⟨_, after, hmain, fun htrue => ?_⟩
  have hshared := (trueFigures_iff helected).mp htrue
  set row := (rowLabelled 1000).values with hrow
  have hrows : trainingRows [rowLabelled 1000, rowLabelled 1000] = List.replicate 2 row := rfl
  have horder : afterShuffles (fun _ _ => 1) (List.replicate 2 row) 1 = List.replicate 2 row :=
    List.perm_replicate.mp (afterShuffles_perm _ _ _)
  have hheld : RandomForest.heldOut (fun _ _ => 1) (List.replicate 2 row) 0 = [row] := by
    rw [RandomForest.heldOut, horder, List.length_replicate, List.drop_replicate]
    rfl
  have htrain : RandomForest.trainPart (fun _ _ => 1) (List.replicate 2 row) 0 = [row] := by
    rw [RandomForest.trainPart, horder, List.length_replicate, List.take_replicate]
    rfl
  obtain ⟨x, hx, hfind⟩ := findMatch_growTree (calcEntropy : List Forex.CandleStick → Exact) true
    (RandomForest.featuresOf (fun _ _ => 1) 0) (List.cons_ne_nil row []) row
  rw [List.mem_singleton.mp hx, ← htrain] at hfind
  have hcached := hshared.heldOut 0 (by decide) row
    (by rw [hrows, hheld]; exact List.mem_singleton_self row) (by rw [hrows]; exact hfind)
  exact absurd hcached (by decide)

end Rows

end Cassandra

end Forex
