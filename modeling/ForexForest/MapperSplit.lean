import ForexForest.CassandraForest
import ForexForest.MapReduceForest
import ForexForest.StoredModel

/-!
# The split of the mapper

`GrowTreeMapper.map` trains a tree on the first columns of its row and stores
the fraction of the other columns that the tree labels correctly.  The cut
stands at two thirds of `TRAINING_COUNT`, however many columns the row has,
where the forest in memory cuts at two thirds of its list.

The labels are objects, but the loop fills the parts of `splitColumns`
(`addInstances_follows`).  `map_spec` says what is stored for a row of any size:
on a row that ends before the cut nothing is tested, and the precision is not a
number.
-/

namespace Forex

open Java MRRandomForestSetup

namespace GrowTreeMapper

/-- `new CandleStick(record)`: the class has the fields of that of the Cassandra
project, its label an `Integer`. -/
def newCandleStick (jdk : Jdk) (record : JString) : Alloc Cassandra.CandleStick := do
  let elements ← StateT.lift (CandleStick.ofRecord jdk record)
  let label ← Integer.valueOf elements.label
  return ⟨elements.currencyPair, elements.time, elements.high, elements.low, elements.close, label⟩

/-- The two lists that the loop of `map` fills, and its counter. -/
structure Parts where
  trainInstances : List Cassandra.CandleStick
  testInstances : List Cassandra.CandleStick
  count : Nat

/-- The body of the loop of `map`. -/
def addInstance (jdk : Jdk) (st : Parts) (name : JString) : Alloc Parts := do
  if st.count < TRAINING_COUNT * 2 / 3 then
    let cs ← newCandleStick jdk name
    return { st with trainInstances := st.trainInstances ++ [cs], count := st.count + 1 }
  else
    let cs ← newCandleStick jdk name
    return { st with testInstances := st.testInstances ++ [cs], count := st.count + 1 }

/-- The loop of `map`. -/
def addInstances (jdk : Jdk) (columns : List JString) : Alloc Parts :=
  columns.foldlM (addInstance jdk) ⟨[], [], 0⟩

/-- The entries of the JSON text that `map` writes. -/
structure Written where
  precision : Option ℚ
  features : List Int
  tree : JString

variable (D : Type) [Arith D]

/-- `map`, on the static list of features and the names of the columns; it leaves
the list shuffled. -/
def map (jdk : Jdk) (shuffle : Shuffle) (totalFeatures : List Int) (columns : List JString) :
    Alloc (List Int × Written) := do
  let totalFeatures := shuffle.apply totalFeatures
  let usedFeatures ← StateT.lift (FeatureView.firstTwo totalFeatures)
  let ⟨trainInstances, testInstances, _⟩ ← addInstances jdk columns
  let dt : DecisionTree D :=
    DecisionTree.train (trainInstances.map Cassandra.CandleStick.values)
      (usedFeatures.read totalFeatures)
  let predictedLabels ← Cassandra.classifyTree dt.root testInstances
  let (matchCount, j) ←
    StateT.lift (countMatches Cassandra.sameLabel predictedLabels testInstances)
  let accuracy := quotient matchCount j
  let json := dt.toJSON jdk
  -- `setPrecision`: the exact quotient stands in the place of the tree's initial zero
  return (totalFeatures, ⟨accuracy, json.features, json.tree⟩)

section Loop

variable {jdk : Jdk}

/-- The candle of a text is boxed after the loop has started. -/
theorem newCandleStick_spec {record : JString} {elements : CandleStick}
    (h : CandleStick.ofRecord jdk record = .ok elements) (next : Nat) : ∃ cs after,
    newCandleStick jdk record next = .ok (cs, after) ∧ cs.values = elements ∧
      cs.label.Before after ∧ next ≤ after := by
  obtain ⟨label, after, hlabel, hvalue, -, hbefore, hafter⟩ :=
    Integer.valueOf_spec elements.label next
  refine ⟨_, after, (alloc_lift h).trans (alloc_bind hlabel), ?_, hbefore, hafter⟩
  rw [Cassandra.CandleStick.values, hvalue]

/-- The parts with their labels unboxed. -/
def Parts.values (st : Parts) : Split where
  trainInstances := st.trainInstances.map Cassandra.CandleStick.values
  testInstances := st.testInstances.map Cassandra.CandleStick.values
  count := st.count

/-- The labels of the test part were boxed before that moment. -/
def Parts.TestBefore (next : Nat) (st : Parts) : Prop :=
  ∀ cs ∈ st.testInstances, cs.label.Before next

/-- One round fills the part that `addColumn` fills. -/
theorem addInstance_follows (st : Parts) (name : JString) (next : Nat)
    (hst : st.TestBefore next) (split : Split) (h : addColumn jdk st.values name = .ok split) :
    ∃ boxed after, addInstance jdk st name next = .ok (boxed, after) ∧ boxed.values = split ∧
      boxed.TestBefore after := by
  obtain ⟨elements, hread, h⟩ := bind_eq_ok h
  obtain ⟨cs, after, hcs, rfl, hlabel, hafter⟩ := newCandleStick_spec hread next
  by_cases hlt : st.count < TRAINING_COUNT * 2 / 3
  · refine ⟨⟨st.trainInstances ++ [cs], st.testInstances, st.count + 1⟩, after, ?_, ?_, ?_⟩
    · rw [addInstance, if_pos hlt, alloc_bind hcs]
      rfl
    · rw [show st.values.count = st.count from rfl, if_pos hlt] at h
      rw [← Except.ok.inj h, Parts.values, List.map_append]
      rfl
    · exact fun d hd => (hst d hd).mono hafter
  · refine ⟨⟨st.trainInstances, st.testInstances ++ [cs], st.count + 1⟩, after, ?_, ?_, ?_⟩
    · rw [addInstance, if_neg hlt, alloc_bind hcs]
      rfl
    · rw [show st.values.count = st.count from rfl, if_neg hlt] at h
      rw [← Except.ok.inj h, Parts.values, List.map_append]
      rfl
    · intro d hd
      rcases List.mem_append.mp hd with hd | hd
      · exact (hst d hd).mono hafter
      · rw [List.mem_singleton.mp hd]
        exact hlabel

/-- The loop makes the parts of `splitColumns`. -/
theorem addInstances_follows {columns : List JString} {split : Split}
    (h : splitColumns jdk columns = .ok split) (next : Nat) :
    ∃ st filled, addInstances jdk columns next = .ok (st, filled) ∧ st.values = split ∧
      st.TestBefore filled :=
  alloc_foldlM_follows (fun st name next hst split => addInstance_follows st name next hst split)
    (fun _ hcs => absurd hcs List.not_mem_nil) h

end Loop

section Mapping

variable {D : Type} [Arith D] {jdk : Jdk}

/-- **One row.**  Whatever the size of the row, the mapper trains on its front and
writes the fraction of the rest that shares the box of a correct prediction. -/
theorem map_spec (hjdk : jdk.Lawful) {records : List CandleStick}
    (hwritable : ∀ cs ∈ records, cs.Writable) (shuffle : Shuffle) {totalFeatures : List Int}
    (htotal : totalFeatures.length = 4) (next : Nat) :
    let trainInstances := records.take (TRAINING_COUNT * 2 / 3)
    let testInstances := records.drop (TRAINING_COUNT * 2 / 3)
    let usedFeatures := (FeatureView.mk 0 2).read (shuffle.apply totalFeatures)
    let root : DTNode D := MapReduce.buildDTree usedFeatures trainInstances
    ∃ st filled after,
      addInstances jdk (records.map fun cs => cs.toString jdk) next = .ok (st, filled) ∧
      st.trainInstances.map Cassandra.CandleStick.values = trainInstances ∧
      st.testInstances.map Cassandra.CandleStick.values = testInstances ∧
      map D jdk shuffle totalFeatures (records.map fun cs => cs.toString jdk) next =
        .ok ((shuffle.apply totalFeatures,
          ⟨quotient (Cassandra.sharedCount root testInstances) testInstances.length,
            usedFeatures, inOrder jdk root⟩), after) := by
  intro trainInstances testInstances usedFeatures root
  obtain ⟨st, filled, hloop, hvalues, hbefore⟩ :=
    addInstances_follows (splitColumns_eq hjdk hwritable) next
  have htrain : st.trainInstances.map Cassandra.CandleStick.values = trainInstances :=
    congrArg Split.trainInstances hvalues
  have htest : st.testInstances.map Cassandra.CandleStick.values = testInstances :=
    congrArg Split.testInstances hvalues
  have hview : FeatureView.firstTwo (shuffle.apply totalFeatures) = .ok ⟨0, 2⟩ := by
    apply FeatureView.firstTwo_of_length
    rw [Shuffle.length_apply, htotal]
  have hanswers : ∀ cs ∈ st.testInstances.map Cassandra.CandleStick.values, ∃ label,
      findMatch root cs = .ok label := by
    rw [htest]
    apply growTree_answers
    intro hnil
    -- nothing stands in front of the cut only when the row is empty
    have hzero := congrArg List.length hnil
    rw [List.length_take, List.length_nil, TRAINING_COUNT] at hzero
    rw [List.drop_eq_nil_iff]
    omega
  obtain ⟨labels, after, hlabels, hpredicted, hfrom, -⟩ :=
    Cassandra.classifyTree_spec hanswers filled
  have hcount := Cassandra.countMatches_classified hanswers hpredicted hbefore hfrom
  refine ⟨st, filled, after, hloop, htrain, htest, ?_⟩
  refine (alloc_lift hview).trans ?_
  refine (alloc_bind hloop).trans ?_
  simp only [htrain]
  refine (alloc_bind hlabels).trans ?_
  refine (alloc_lift hcount).trans ?_
  rw [htest, ← List.length_map Cassandra.CandleStick.values, htest]
  rfl

/-- Where every label has a shared box, every correct prediction counts. -/
theorem sharedCount_eq_correctCount {root : DTNode D} {instances : List CandleStick}
    (hlabels : ∀ cs ∈ instances, IsLabel cs.label) :
    Cassandra.sharedCount root instances = RandomForest.correctCount root instances := by
  apply List.countP_congr
  intro cs hcs
  have hcached : IsCached cs.label := by
    rcases hlabels cs hcs with h | h | h
    all_goals rw [h]; decide
  simp [hcached]

end Mapping

/-- The mapper, on a row of `records`, agrees with `buildForest`: the parts are
those of the forest's cut, something is tested, and the precision is the fraction
of the test part that the tree of the training part labels correctly. -/
structure SplitsAsForest (jdk : Jdk) (records trainInstances testInstances : List CandleStick)
    (written : Written) : Prop where
  train_length : trainInstances.length = 2 * records.length / 3
  test_length : testInstances.length = records.length - 2 * records.length / 3
  parts : (trainInstances ++ testInstances).Perm records
  as_forest : cutInstances (Int32.ofNat records.length) (trainInstances ++ testInstances) =
    .ok (trainInstances, testInstances)
  test_ne_nil : testInstances ≠ []
  trained : written.tree =
    inOrder jdk (MapReduce.buildDTree written.features trainInstances : DTNode D)
  precision : ∃ precision, written.precision = some precision ∧ 0 ≤ precision ∧ precision ≤ 1 ∧
    precision = RandomForest.correctCount
      (MapReduce.buildDTree written.features trainInstances : DTNode D) testInstances /
        testInstances.length

/-- Cut at two thirds of their own number, records are split as by the forest. -/
theorem splitsAsForest_of_cut {jdk : Jdk} {records sorted : List CandleStick}
    (hperm : sorted.Perm records) (htwo : 2 ≤ records.length) (hsize : records.length < 2 ^ 30)
    (hlabels : ∀ cs ∈ records, IsLabel cs.label) (features : List Int) :
    let trainInstances := sorted.take (2 * records.length / 3)
    let testInstances := sorted.drop (2 * records.length / 3)
    let root : DTNode D := MapReduce.buildDTree features trainInstances
    SplitsAsForest D jdk records trainInstances testInstances
      ⟨quotient (Cassandra.sharedCount root testInstances) testInstances.length, features,
        inOrder jdk root⟩ := by
  intro trainInstances testInstances root
  have htest : testInstances.length = records.length - 2 * records.length / 3 := by
    rw [List.length_drop, hperm.length_eq]
  have hpos : 0 < testInstances.length := by omega
  refine ⟨?_, htest, ?_, ?_, List.length_pos_iff.mp hpos, rfl, ?_⟩
  · rw [List.length_take, hperm.length_eq]
    omega
  · rwa [List.take_append_drop]
  · rw [List.take_append_drop]
    exact cutInstances_eq hsize hperm.length_eq
  · have hcount : Cassandra.sharedCount root testInstances =
        RandomForest.correctCount root testInstances :=
      sharedCount_eq_correctCount fun cs hcs =>
        hlabels cs (hperm.mem_iff.mp (List.mem_of_mem_drop hcs))
    obtain ⟨hquotient, hnonneg, hle⟩ := RandomForest.quotient_mem
      (show RandomForest.correctCount root testInstances ≤ _ from List.countP_le_length) hpos
    exact ⟨_, hcount ▸ hquotient, hnonneg, hle, rfl⟩

/-- What the mapper is given of a row is a front of its sorted records, all of them
or 10000. -/
theorem exists_fetched {jdk : Jdk} (hjdk : jdk.Lawful) {names : Comparator JString}
    {row : Row names} {records : List CandleStick} (hwritable : ∀ cs ∈ records, cs.Writable)
    (hdistinct : records.Nodup)
    (hrow : ∀ name, name ∈ row.columns ↔ ∃ cs ∈ records, name = cs.toString jdk)
    {columns : List JString} (hcolumns : columns = row.columns ∨ columns = rowSlice row) :
    ∃ (sorted : List CandleStick) (k : Nat), sorted.Perm records ∧ (k = sorted.length ∨ k = 10000) ∧
      columns = (sorted.take k).map fun cs => cs.toString jdk := by
  obtain ⟨sorted, hperm, hsorted, -⟩ := exists_sorted_records hjdk hwritable hdistinct hrow
  rcases hcolumns with rfl | rfl
  · exact ⟨sorted, _, hperm, Or.inl rfl, by rw [List.take_length, hsorted]⟩
  · exact ⟨sorted, _, hperm, Or.inr rfl, by rw [rowSlice, hsorted, List.map_take]⟩

/-- **The split of the mapper.**  For every row of at least two distinct records
with the three labels, given to the mapper as it is stored or as the job fetches
it, `map` returns, and it agrees with `buildForest` exactly when the row has 9999
or 10000 columns. -/
theorem map_splitsAsForest_iff {jdk : Jdk} (hjdk : jdk.Lawful) {names : Comparator JString}
    {row : Row names} {records : List CandleStick} (htwo : 2 ≤ records.length)
    (hwritable : ∀ cs ∈ records, cs.Writable) (hlabels : ∀ cs ∈ records, IsLabel cs.label)
    (hdistinct : records.Nodup)
    (hrow : ∀ name, name ∈ row.columns ↔ ∃ cs ∈ records, name = cs.toString jdk)
    {columns : List JString} (hcolumns : columns = row.columns ∨ columns = rowSlice row)
    (shuffle : Shuffle) {totalFeatures : List Int} (htotal : totalFeatures.Perm [0, 1, 2, 3])
    (next : Nat) :
    ∃ st filled shuffled written after, addInstances jdk columns next = .ok (st, filled) ∧
      map D jdk shuffle totalFeatures columns next = .ok ((shuffled, written), after) ∧
      (SplitsAsForest D jdk records (st.trainInstances.map Cassandra.CandleStick.values)
          (st.testInstances.map Cassandra.CandleStick.values) written ↔
        records.length = 9999 ∨ records.length = 10000) := by
  obtain ⟨sorted, k, hperm, hk, hfetched⟩ :=
    exists_fetched hjdk hwritable hdistinct hrow hcolumns
  have hmem : ∀ cs ∈ sorted.take k, cs ∈ records := fun cs hcs =>
    hperm.mem_iff.mp (List.mem_of_mem_take hcs)
  obtain ⟨st, filled, after, hloop, htrain, htest, hmap⟩ := map_spec (D := D) hjdk
    (fun cs hcs => hwritable cs (hmem cs hcs)) shuffle htotal.length_eq next
  rw [← hfetched] at hloop hmap
  refine ⟨st, filled, _, _, after, hloop, hmap, ?_⟩
  rw [htrain, htest]
  have hlength := hperm.length_eq
  constructor
  · intro h
    have htrainLength := h.train_length
    have htestLength := h.test_length
    rw [List.length_take, List.length_take, TRAINING_COUNT] at htrainLength
    rw [List.length_drop, List.length_take, TRAINING_COUNT] at htestLength
    omega
  · intro hsize
    have hall : sorted.take k = sorted := List.take_of_length_le (by omega)
    have hcut : TRAINING_COUNT * 2 / 3 = 2 * records.length / 3 := by
      rw [TRAINING_COUNT]
      omega
    rw [hall, hcut]
    exact splitsAsForest_of_cut D hperm htwo (by omega) hlabels _

/-- The first of the numbered records. -/
def firstRecords (k : Nat) : List CandleStick := (List.range k).map numbered

/-- The row of the first tree, when the setup program has read these records. -/
def firstRow (k : Nat) : Row Comparator.string :=
  ColumnFamily.rowAt (addRecords Jdk.sample (rowKey Jdk.sample 0) (firstRecords k) [])
    (rowKey Jdk.sample 0)

/-- The first records of the sample are different, writable and labelled. -/
theorem firstRecords_spec (k : Nat) :
    (firstRecords k).length = k ∧ (firstRecords k).Nodup ∧
      (∀ cs ∈ firstRecords k, cs.Writable) ∧ (∀ cs ∈ firstRecords k, IsLabel cs.label) := by
  refine ⟨by simp [firstRecords], List.nodup_range.map fun _ _ => numbered_inj, ?_, ?_⟩
  · intro cs hcs
    obtain ⟨j, -, rfl⟩ := List.mem_map.mp hcs
    exact numbered_writable j
  · intro cs hcs
    obtain ⟨j, -, rfl⟩ := List.mem_map.mp hcs
    exact Or.inl rfl

/-- The row of the sample holds the texts of these records and nothing else. -/
theorem mem_firstRow (k : Nat) (name : JString) :
    name ∈ (firstRow k).columns ↔ ∃ cs ∈ firstRecords k, name = cs.toString Jdk.sample := by
  rw [firstRow, addRecords, ColumnFamily.mem_rowAt_foldl_add string_separates]
  exact or_iff_right List.not_mem_nil

theorem map_splitsAsForest_full :
    ∃ st filled shuffled written after,
      addInstances Jdk.sample (rowSlice (firstRow 10000)) 0 = .ok (st, filled) ∧
      map Exact Jdk.sample (fun _ => 1) [0, 1, 2, 3] (rowSlice (firstRow 10000)) 0 =
        .ok ((shuffled, written), after) ∧
      SplitsAsForest Exact Jdk.sample (firstRecords 10000)
        (st.trainInstances.map Cassandra.CandleStick.values)
        (st.testInstances.map Cassandra.CandleStick.values) written := by
  obtain ⟨hlength, hdistinct, hwritable, hlabels⟩ := firstRecords_spec 10000
  obtain ⟨st, filled, shuffled, written, after, hloop, hmap, hiff⟩ :=
    map_splitsAsForest_iff Exact Jdk.sample_lawful (by rw [hlength]; norm_num) hwritable hlabels
      hdistinct (mem_firstRow 10000) (Or.inr rfl) (fun _ => 1) (List.Perm.refl _) 0
  exact ⟨st, filled, shuffled, written, after, hloop, hmap, hiff.mpr (Or.inr hlength)⟩

/-- Two records are both trained on; nothing is tested, and the precision is not a
number. -/
theorem two_columns_nothing_tested :
    (firstRecords 2).length = 2 ∧ (firstRecords 2).Nodup ∧
      (∀ cs ∈ firstRecords 2, IsLabel cs.label) ∧
      (∀ name, name ∈ (firstRow 2).columns ↔
        ∃ cs ∈ firstRecords 2, name = cs.toString Jdk.sample) ∧
    ∃ st filled shuffled written after,
      addInstances Jdk.sample (rowSlice (firstRow 2)) 0 = .ok (st, filled) ∧
      map Exact Jdk.sample (fun _ => 1) [0, 1, 2, 3] (rowSlice (firstRow 2)) 0 =
        .ok ((shuffled, written), after) ∧
      st.testInstances = [] ∧ written.precision = none ∧
      ¬ SplitsAsForest Exact Jdk.sample (firstRecords 2)
        (st.trainInstances.map Cassandra.CandleStick.values)
        (st.testInstances.map Cassandra.CandleStick.values) written := by
  obtain ⟨hlength, hdistinct, hwritable, hlabels⟩ := firstRecords_spec 2
  obtain ⟨sorted, k, hperm, -, hfetched⟩ := exists_fetched Jdk.sample_lawful hwritable hdistinct
    (mem_firstRow 2) (Or.inr rfl)
  have hrest : (sorted.take k).drop (TRAINING_COUNT * 2 / 3) = [] := by
    rw [List.drop_eq_nil_iff, List.length_take, hperm.length_eq, hlength, TRAINING_COUNT]
    omega
  obtain ⟨st, filled, after, hloop, -, htest, hmap⟩ := map_spec (D := Exact) Jdk.sample_lawful
    (fun cs hcs => hwritable cs (hperm.mem_iff.mp (List.mem_of_mem_take hcs))) (fun _ => 1)
    (show ([0, 1, 2, 3] : List Int).length = 4 from rfl) 0
  rw [hrest] at htest hmap
  rw [hfetched]
  refine ⟨hlength, hdistinct, hlabels, mem_firstRow 2, st, filled, _, _, after, hloop, hmap,
    List.map_eq_nil_iff.mp htest, rfl, ?_⟩
  intro h
  exact h.test_ne_nil htest

end GrowTreeMapper

end Forex
