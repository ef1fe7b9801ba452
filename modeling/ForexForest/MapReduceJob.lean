import ForexForest.MapperSplit

/-!
# The map-reduce job

The rows of the column family are handed out to tasks, each of them a virtual
machine of its own: it starts with the features in order and no box allocated, and
the static list of features goes from one `map` to the next.  The reducer collects
the models of all tasks.

The setup program shuffles the records anew for every row, but a row comes back
sorted, so all rows hold the same columns (`Row.columns_eq`) and all trees are
grown on one sample.  `models_of_one_sample` follows the file through both
programs: for any number of rows, shuffles and tasks, the job collects one model a
row, and each is one of the twelve that a pair of features makes of that sample.
-/

namespace Java

variable {names : Comparator JString}

/-- Two rows with the same names have the same columns. -/
theorem Row.columns_eq {row row' : Row names}
    (h : ∀ name, name ∈ row.columns ↔ name ∈ row'.columns) : row.columns = row'.columns := by
  refine ((List.perm_ext_iff_of_nodup row.nodup row'.nodup).mpr h).eq_of_pairwise ?_
    row.sorted row'.sorted
  intro a b _ _ hab hba
  exact absurd hba (names.lt_asymm hab)

namespace ColumnFamily

/-- A column in a known row opens no row. -/
theorem keys_add_of_mem {store : ColumnFamily names} {key : JString} (h : key ∈ store.keys)
    (name : JString) : (add store key name).keys = store.keys :=
  (Entries.keys_put store key _).trans (if_pos h)

/-- A column under a new key opens its row behind the others. -/
theorem keys_add_of_notMem {store : ColumnFamily names} {key : JString} (h : key ∉ store.keys)
    (name : JString) : (add store key name).keys = store.keys ++ [key] :=
  (Entries.keys_put store key _).trans (if_neg h)

variable {α : Type} (text : α → JString)

/-- More columns in a known row open no row. -/
theorem keys_foldl_add_of_mem (l : List α) {store : ColumnFamily names} {key : JString}
    (h : key ∈ store.keys) :
    (l.foldl (fun store a => add store key (text a)) store).keys = store.keys := by
  induction l generalizing store with
  | nil => rfl
  | cons a l ih =>
      have hadd := keys_add_of_mem h (text a)
      rw [List.foldl_cons, ih (hadd.symm ▸ h), hadd]

/-- The first column opens the row. -/
theorem keys_foldl_add_of_notMem {l : List α} (hl : l ≠ []) {store : ColumnFamily names}
    {key : JString} (h : key ∉ store.keys) :
    (l.foldl (fun store a => add store key (text a)) store).keys = store.keys ++ [key] := by
  cases l with
  | nil => exact absurd rfl hl
  | cons a l =>
      have hadd := keys_add_of_notMem h (text a)
      rw [List.foldl_cons, keys_foldl_add_of_mem text l, hadd]
      exact hadd.symm ▸ List.mem_append_right _ (List.mem_singleton_self key)

end ColumnFamily

end Java

namespace Forex

open Java MRRandomForestSetup

namespace MRRandomForestSetup

variable {names : Comparator JString} {jdk : Jdk}
  {shuffle : Nat → List CandleStick → List CandleStick}

/-- The setup program opens one row a round. -/
theorem keys_setup (hjdk : jdk.Lawful) (hshuffle : ∀ i l, (shuffle i l).Perm l)
    {totTraining : List CandleStick} (hne : totTraining ≠ []) {n : Nat} (hn : n ≤ 2 ^ 31) :
    ∃ store : ColumnFamily names,
      (List.range n).foldl (fillRow jdk shuffle) (totTraining, []) =
        (shuffled shuffle totTraining n, store) ∧
      store.keys = (List.range n).map (rowKey jdk) := by
  induction n with
  | zero => exact ⟨[], rfl, rfl⟩
  | succ n ih =>
      obtain ⟨store, hstore, hkeys⟩ := ih (by omega)
      have hnew : rowKey jdk n ∉ store.keys := by
        rw [hkeys, List.mem_map]
        intro hex
        obtain ⟨i, hi, hsame⟩ := hex
        have hlt := List.mem_range.mp hi
        exact rowKey_ne hjdk (by omega) hn (by omega) hsame
      have hsome : shuffled shuffle totTraining (n + 1) ≠ [] := fun hnil =>
        hne ((hnil ▸ shuffled_perm hshuffle totTraining (n + 1)).nil_eq.symm)
      refine ⟨addRecords jdk (rowKey jdk n) (shuffled shuffle totTraining (n + 1)) store, ?_, ?_⟩
      · rw [List.range_succ, List.foldl_append, hstore]
        rfl
      · rw [addRecords, ColumnFamily.keys_foldl_add_of_notMem _ hsome hnew, hkeys,
          List.range_succ, List.map_append]
        rfl

end MRRandomForestSetup

namespace GrowTreeMapper

/-- The ordered pairs of two features. -/
def featurePairs : List (List Int) :=
  [[0, 1], [0, 2], [0, 3], [1, 0], [1, 2], [1, 3], [2, 0], [2, 1], [2, 3], [3, 0], [3, 1], [3, 2]]

/-- The first two features of a shuffled list are such a pair. -/
theorem read_mem_featurePairs {totalFeatures : List Int} (h : totalFeatures.Perm [0, 1, 2, 3]) :
    (FeatureView.mk 0 2).read totalFeatures ∈ featurePairs := by
  have hnodup : totalFeatures.Nodup := h.nodup_iff.mpr (by decide)
  have hlength : totalFeatures.length = 4 := h.length_eq
  match totalFeatures, hlength with
  | [a, b, c, d], _ =>
      have ha : a ∈ [(0 : Int), 1, 2, 3] := h.mem_iff.mp (by simp)
      have hb : b ∈ [(0 : Int), 1, 2, 3] := h.mem_iff.mp (by simp)
      have hab : a ≠ b := fun hab => by simp [hab] at hnodup
      have hpairs : ∀ a ∈ [(0 : Int), 1, 2, 3], ∀ b ∈ [(0 : Int), 1, 2, 3], a ≠ b →
          [a, b] ∈ featurePairs := by decide
      exact hpairs a ha b hb hab

/-- The model that a pair of features makes of the records of a row. -/
def modelOf (D : Type) [Arith D] (jdk : Jdk) (records : List CandleStick) (features : List Int) :
    Written :=
  let root : DTNode D := MapReduce.buildDTree features (records.take (TRAINING_COUNT * 2 / 3))
  let testInstances := records.drop (TRAINING_COUNT * 2 / 3)
  ⟨quotient (Cassandra.sharedCount root testInstances) testInstances.length, features,
    inOrder jdk root⟩

end GrowTreeMapper

open GrowTreeMapper

/-- The library that turns the models into texts. -/
structure JsonSimple where
  objectText : Written → JString
  arrayText : List JString → JString

namespace AggregateReducer

/-- `reduce`. -/
def reduce (json : JsonSimple) (key : JString) (values : List JString) : JString × JString :=
  let rfJSON := values.foldl (fun rfJSON val => rfJSON ++ [val]) []
  (key, json.arrayText rfJSON)

/-- The reducer copies the values into one array, in their order. -/
theorem reduce_eq (json : JsonSimple) (key : JString) (values : List JString) :
    reduce json key values = (key, json.arrayText values) := by
  have hall : values.foldl (fun rfJSON val => rfJSON ++ [val]) [] = values := by
    induction values using List.reverseRecOn with
    | nil => rfl
    | append_singleton values val ih => rw [List.foldl_append, ih, List.foldl_cons, List.foldl_nil]
  rw [reduce, hall]

end AggregateReducer

namespace MRRandomForest

/-- A task: the rows of its split, and what its shuffles do. -/
structure Task (names : Comparator JString) where
  rows : List (Row names)
  shuffle : Nat → Shuffle

/-- A task between two rows. -/
structure TaskState where
  totalFeatures : List Int
  written : List Written

section Job

variable {names : Comparator JString} (D : Type) [Arith D] (jdk : Jdk)

/-- `map` is called on a row. -/
def mapRow (shuffle : Nat → Shuffle) (st : TaskState) (row : Row names) : Alloc TaskState := do
  let (totalFeatures, written) ←
    GrowTreeMapper.map D jdk (shuffle st.written.length) st.totalFeatures (rowSlice row)
  return ⟨totalFeatures, st.written ++ [written]⟩

/-- The models that a task writes. -/
def runTask (task : Task names) : Except Exception (List Written) := do
  let (st, _) ← task.rows.foldlM (mapRow D jdk task.shuffle) ⟨[0, 1, 2, 3], []⟩ 0
  return st.written

/-- The values of each key. -/
def groups (pairs : List (JString × JString)) : List (JString × List JString) :=
  (pairs.map Prod.fst).dedup.map fun key =>
    (key, (pairs.filter fun pair => pair.1 = key).map Prod.snd)

/-- `run`: the tasks, the models in the order of their arrival, and the reducer. -/
def run (json : JsonSimple) (tasks : List (Task names)) (arrival : Shuffle) :
    Except Exception (List (JString × JString)) := do
  let outputs ← tasks.mapM (runTask D jdk)
  let pairs := outputs.flatten.map fun written => (lit "rf", json.objectText written)
  return (groups (arrival.apply pairs)).map fun group =>
    AggregateReducer.reduce json group.1 group.2

end Job

/-- Values under one key reach the reducer together. -/
theorem groups_of_oneKey (key : JString) {values : List JString} (hne : values ≠ []) :
    groups (values.map fun value => (key, value)) = [(key, values)] := by
  have hkeys : ((values.map fun value => (key, value)).map Prod.fst).dedup = [key] := by
    have hconst : Prod.fst ∘ (fun value : JString => (key, value)) = Function.const _ key := rfl
    rw [List.map_map, hconst, List.map_const,
      List.replicate_dedup fun hzero => hne (List.length_eq_zero_iff.mp hzero)]
  rw [groups, hkeys, List.map_singleton, List.filter_eq_self.mpr (by simp), List.map_map]
  exact congrArg (fun l => [(key, l)]) (List.map_id values)

section OneSample

variable {names : Comparator JString} {D : Type} [Arith D] {jdk : Jdk} (hjdk : jdk.Lawful)
  {records : List CandleStick} (hwritable : ∀ cs ∈ records, cs.Writable)
include hjdk hwritable

/-- On a row of these records `map` writes the model of some pair of features. -/
theorem mapRow_spec (shuffle : Nat → Shuffle) {row : Row names}
    (hrow : rowSlice row = records.map fun cs => cs.toString jdk) {st : TaskState}
    (hst : st.totalFeatures.Perm [0, 1, 2, 3]) (next : Nat) :
    ∃ st' after, mapRow D jdk shuffle st row next = .ok (st', after) ∧
      st'.totalFeatures.Perm [0, 1, 2, 3] ∧
      ∃ features ∈ featurePairs, st'.written = st.written ++ [modelOf D jdk records features] := by
  obtain ⟨-, -, after, -, -, -, hmap⟩ := map_spec (D := D) hjdk hwritable
    (shuffle st.written.length) hst.length_eq next
  have hshuffled := ((shuffle st.written.length).apply_perm st.totalFeatures).trans hst
  rw [← hrow] at hmap
  exact ⟨_, after, (alloc_bind hmap).trans rfl, hshuffled, _, read_mem_featurePairs hshuffled, rfl⟩

/-- The rows of a task add one model each. -/
theorem foldlM_mapRow (shuffle : Nat → Shuffle) {rows : List (Row names)}
    (hrows : ∀ row ∈ rows, rowSlice row = records.map fun cs => cs.toString jdk) {st : TaskState}
    (hst : st.totalFeatures.Perm [0, 1, 2, 3]) (next : Nat) :
    ∃ st' after, rows.foldlM (mapRow D jdk shuffle) st next = .ok (st', after) ∧
      ∃ models, st'.written = st.written ++ models ∧ models.length = rows.length ∧
        models ⊆ featurePairs.map (modelOf D jdk records) := by
  induction rows generalizing st next with
  | nil => exact ⟨st, next, rfl, [], (List.append_nil _).symm, rfl, List.nil_subset _⟩
  | cons row rows ih =>
      obtain ⟨hrow, hrest⟩ := List.forall_mem_cons.mp hrows
      obtain ⟨middle, allocated, hround, hmiddle, features, hfeatures, hwritten⟩ :=
        mapRow_spec hjdk hwritable (D := D) shuffle hrow hst next
      obtain ⟨st', after, hloop, models, hmodels, hlength, hsub⟩ := ih hrest hmiddle allocated
      refine ⟨st', after, ?_, modelOf D jdk records features :: models, ?_, ?_, ?_⟩
      · rw [List.foldlM_cons, alloc_bind hround, hloop]
      · rw [hmodels, hwritten, List.append_assoc, List.singleton_append]
      · rw [List.length_cons, hlength, List.length_cons]
      · exact List.cons_subset.mpr ⟨List.mem_map_of_mem hfeatures, hsub⟩

/-- A task on such rows writes one model a row, each of them for some pair. -/
theorem runTask_spec {task : Task names}
    (hrows : ∀ row ∈ task.rows, rowSlice row = records.map fun cs => cs.toString jdk) :
    ∃ models, runTask D jdk task = .ok models ∧ models.length = task.rows.length ∧
      models ⊆ featurePairs.map (modelOf D jdk records) := by
  have hstart : (TaskState.mk [0, 1, 2, 3] []).totalFeatures.Perm [0, 1, 2, 3] :=
    List.Perm.refl _
  obtain ⟨st', after, hloop, models, hwritten, hlength, hsub⟩ :=
    foldlM_mapRow hjdk hwritable (D := D) task.shuffle hrows hstart 0
  refine ⟨models, ?_, hlength, hsub⟩
  rw [runTask, hloop, ok_bind]
  exact congrArg Except.ok (hwritten.trans (List.nil_append models))

/-- The tasks of a job write one model a row. -/
theorem mapM_runTask {tasks : List (Task names)}
    (hrows : ∀ task ∈ tasks, ∀ row ∈ task.rows,
      rowSlice row = records.map fun cs => cs.toString jdk) :
    ∃ outputs, tasks.mapM (runTask D jdk) = .ok outputs ∧
      outputs.flatten.length = (tasks.flatMap Task.rows).length ∧
      outputs.flatten ⊆ featurePairs.map (modelOf D jdk records) := by
  induction tasks with
  | nil => exact ⟨[], rfl, rfl, List.nil_subset _⟩
  | cons task tasks ih =>
      obtain ⟨htask, hrest⟩ := List.forall_mem_cons.mp hrows
      obtain ⟨models, hmodels, hlength, hsub⟩ := runTask_spec hjdk hwritable (D := D) htask
      obtain ⟨outputs, houtputs, hlengths, hsubs⟩ := ih hrest
      refine ⟨models :: outputs, ?_, ?_, ?_⟩
      · rw [List.mapM_cons, hmodels, ok_bind, houtputs]
        rfl
      · rw [List.flatten_cons, List.length_append, hlength, hlengths, List.flatMap_cons,
          List.length_append]
      · rw [List.flatten_cons]
        exact List.append_subset.mpr ⟨hsub, hsubs⟩

/-- The job on such rows: one text of one model a row. -/
theorem run_spec (json : JsonSimple) {tasks : List (Task names)} (arrival : Shuffle)
    (hrows : ∀ task ∈ tasks, ∀ row ∈ task.rows,
      rowSlice row = records.map fun cs => cs.toString jdk)
    (hsome : tasks.flatMap Task.rows ≠ []) :
    ∃ models : List Written, models.length = (tasks.flatMap Task.rows).length ∧
      models ⊆ featurePairs.map (modelOf D jdk records) ∧
      run D jdk json tasks arrival =
        .ok [(lit "rf", json.arrayText (models.map json.objectText))] := by
  obtain ⟨outputs, houtputs, hlength, hsub⟩ := mapM_runTask hjdk hwritable (D := D) hrows
  have hperm := arrival.apply_perm outputs.flatten
  have hmodels : (arrival.apply outputs.flatten).map json.objectText ≠ [] := by
    rw [← List.length_pos_iff, List.length_map, hperm.length_eq, hlength]
    exact List.length_pos_iff.mpr hsome
  refine ⟨arrival.apply outputs.flatten, hperm.length_eq.trans hlength,
    fun model hmodel => hsub (hperm.mem_iff.mp hmodel), ?_⟩
  have hpairs :
      arrival.apply (outputs.flatten.map fun written => (lit "rf", json.objectText written)) =
        ((arrival.apply outputs.flatten).map json.objectText).map
          fun value => (lit "rf", value) := by
    rw [Shuffle.apply_map, List.map_map]
    rfl
  rw [run, houtputs, ok_bind]
  simp only [hpairs, groups_of_oneKey _ hmodels, List.map_singleton, AggregateReducer.reduce_eq]
  rfl

end OneSample

end MRRandomForest

section Job

open MRRandomForest

variable {names : Comparator JString} {jdk : Jdk}

/-- The records of a file in the order of their names, each of them once. -/
theorem exists_nameOrder (hjdk : jdk.Lawful) (hnames : ∀ a b, names.compare a b = 0 → a = b)
    {totTraining : List CandleStick} (hwritable : ∀ cs ∈ totTraining, cs.Writable) :
    ∃ records : List CandleStick, (∀ cs, cs ∈ records ↔ cs ∈ totTraining) ∧
      records.Pairwise fun a b => names.compare (a.toString jdk) (b.toString jdk) < 0 := by
  obtain ⟨row, hrow⟩ : ∃ row : Row names,
      ∀ name, name ∈ row.columns ↔ ∃ cs ∈ totTraining, name = cs.toString jdk := by
    refine ⟨(addRecords jdk [] totTraining []).rowAt [], fun name => ?_⟩
    rw [addRecords, ColumnFamily.mem_rowAt_foldl_add hnames]
    exact or_iff_right List.not_mem_nil
  obtain ⟨records, -, hmem, hcolumns⟩ := exists_records_of_row hjdk hwritable hrow
  refine ⟨records, hmem, ?_⟩
  have hsorted := row.sorted
  rwa [hcolumns, List.pairwise_map] at hsorted

/-- The rows of the setup program: one for each tree, all with the texts of the
records. -/
theorem setup_rows (hjdk : jdk.Lawful) (hnames : ∀ a b, names.compare a b = 0 → a = b) (N : Int32)
    {shuffle : Nat → List CandleStick → List CandleStick}
    (hshuffle : ∀ i l, (shuffle i l).Perm l) {lines : List JString}
    {totTraining : List CandleStick} (hread : readTraining jdk lines = .ok totTraining)
    (hne : totTraining ≠ []) :
    ∃ store : ColumnFamily names, main names jdk N shuffle lines = .ok store ∧
      store.length = N.toInt.toNat ∧
      ∀ row ∈ store.map Prod.snd, ∀ name,
        name ∈ row.columns ↔ ∃ cs ∈ totTraining, name = cs.toString jdk := by
  have hn : N.toInt.toNat ≤ 2 ^ 31 := by
    have := N.toInt_lt
    omega
  obtain ⟨store, hstore, hrows, -⟩ := rowAt_setup hjdk hnames shuffle totTraining N.toInt.toNat hn
  obtain ⟨other, hother, hkeys⟩ := keys_setup hjdk hshuffle hne hn
  obtain rfl : store = other := congrArg Prod.snd (hstore.symm.trans hother)
  have hnodup : store.keys.Nodup := by
    rw [hkeys]
    refine List.Nodup.map_on (fun i hi j hj hsame => ?_) List.nodup_range
    by_contra hij
    exact rowKey_ne hjdk (by grind) (by grind) hij hsame
  refine ⟨store, ?_, ?_, ?_⟩
  · rw [main, hread, ok_bind, hstore]
    rfl
  · have hsize := congrArg List.length hkeys
    rwa [Entries.keys, List.length_map, List.length_map, List.length_range] at hsize
  · intro row hrow name
    obtain ⟨⟨key, row⟩, hentry, rfl⟩ := List.mem_map.mp hrow
    have hkey : key ∈ (List.range N.toInt.toNat).map (rowKey jdk) :=
      hkeys ▸ List.mem_map_of_mem hentry
    obtain ⟨i, hi, rfl⟩ := List.mem_map.mp hkey
    have hat : store.rowAt (rowKey jdk i) = row := by
      rw [ColumnFamily.rowAt, (Entries.mem_iff_get hnodup).mp hentry, Option.getD_some]
    rw [← hat, hrows i (List.mem_range.mp hi) name]
    simp only [(shuffled_perm hshuffle totTraining (i + 1)).mem_iff]

/-- The job on the rows of these records: one model for each tree, all of them grown
on the front of the records in the order of their names. -/
theorem models_of_sorted (D : Type) [Arith D] (hjdk : jdk.Lawful)
    (hnames : ∀ a b, names.compare a b = 0 → a = b) {lines : List JString}
    (hlines : ∀ line ∈ lines, OneLine line) {totTraining records : List CandleStick}
    (hread : readTraining jdk lines = .ok totTraining) (hne : totTraining ≠ [])
    (hmem : ∀ cs, cs ∈ records ↔ cs ∈ totTraining)
    (hsorted : records.Pairwise fun a b => names.compare (a.toString jdk) (b.toString jdk) < 0)
    {N : Int32} {shuffle : Nat → List CandleStick → List CandleStick} (hN : 0 < N.toInt)
    (hshuffle : ∀ i l, (shuffle i l).Perm l) :
    ∃ store, main names jdk N shuffle lines = .ok store ∧
      ∀ (tasks : List (Task names)) (json : JsonSimple) (arrival : Shuffle),
        (tasks.flatMap Task.rows).Perm (store.map Prod.snd) →
        ∃ models : List Written, models.length = N.toInt.toNat ∧
          models ⊆ featurePairs.map (modelOf D jdk records) ∧
          run D jdk json tasks arrival =
            .ok [(lit "rf", json.arrayText (models.map json.objectText))] := by
  obtain ⟨hlength, hwritable⟩ := readTraining_ok hlines hread
  let sorted : Row names :=
    ⟨records.map fun cs => cs.toString jdk, List.pairwise_map.mpr hsorted⟩
  have hnodup : records.Nodup := List.Nodup.of_map _ sorted.nodup
  have hfew : records.length ≤ 10000 :=
    (hnodup.subperm fun cs hcs => (hmem cs).mp hcs).length_le.trans hlength
  obtain ⟨store, hmain, hsize, hstore⟩ := setup_rows hjdk hnames N hshuffle hread hne
  refine ⟨store, hmain, fun tasks json arrival htasks => ?_⟩
  have hrows : ∀ task ∈ tasks, ∀ row ∈ task.rows,
      rowSlice row = records.map fun cs => cs.toString jdk := by
    intro task htask row hrow
    have hin := htasks.mem_iff.mp (List.mem_flatMap.mpr ⟨task, htask, hrow⟩)
    have hcolumns : row.columns = sorted.columns := by
      refine Row.columns_eq fun name => ?_
      rw [hstore row hin name, List.mem_map]
      constructor
      · intro hex
        obtain ⟨cs, hcs, rfl⟩ := hex
        exact ⟨cs, (hmem cs).mpr hcs, rfl⟩
      · intro hex
        obtain ⟨cs, hcs, rfl⟩ := hex
        exact ⟨cs, (hmem cs).mp hcs, rfl⟩
    rw [rowSlice, hcolumns, List.take_of_length_le]
    rwa [List.length_map]
  have hcount : (tasks.flatMap Task.rows).length = N.toInt.toNat := by
    rw [htasks.length_eq, List.length_map, hsize]
  have hsome : tasks.flatMap Task.rows ≠ [] := by
    rw [← List.length_pos_iff, hcount]
    omega
  obtain ⟨models, hmodels, hsub, hrun⟩ := run_spec (D := D) hjdk
    (fun cs hcs => hwritable cs ((hmem cs).mp hcs)) json arrival hrows hsome
  exact ⟨models, hmodels.trans hcount, hsub, hrun⟩

/-- **The whole job.**  Whatever the number of trees, the shuffles, the tasks and the
order of arrival, the job collects one model for each tree, all trees are grown on
the front of the records in the order of their names, and each of the models is
one of twelve. -/
theorem models_of_one_sample (D : Type) [Arith D] (hjdk : jdk.Lawful)
    (hnames : ∀ a b, names.compare a b = 0 → a = b) {lines : List JString}
    (hlines : ∀ line ∈ lines, OneLine line) {totTraining : List CandleStick}
    (hread : readTraining jdk lines = .ok totTraining) (hne : totTraining ≠ []) :
    ∃ records : List CandleStick, (∀ cs, cs ∈ records ↔ cs ∈ totTraining) ∧
      (records.Pairwise fun a b => names.compare (a.toString jdk) (b.toString jdk) < 0) ∧
      ∀ (N : Int32) (shuffle : Nat → List CandleStick → List CandleStick), 0 < N.toInt →
        (∀ i l, (shuffle i l).Perm l) →
        ∃ store, main names jdk N shuffle lines = .ok store ∧
          ∀ (tasks : List (Task names)) (json : JsonSimple) (arrival : Shuffle),
            (tasks.flatMap Task.rows).Perm (store.map Prod.snd) →
            ∃ models : List Written, models.length = N.toInt.toNat ∧
              models ⊆ featurePairs.map (modelOf D jdk records) ∧
              run D jdk json tasks arrival =
                .ok [(lit "rf", json.arrayText (models.map json.objectText))] := by
  obtain ⟨-, hwritable⟩ := readTraining_ok hlines hread
  obtain ⟨records, hmem, hsorted⟩ := exists_nameOrder hjdk hnames hwritable
  exact ⟨records, hmem, hsorted, fun N shuffle hN hshuffle =>
    models_of_sorted D hjdk hnames hlines hread hne hmem hsorted hN hshuffle⟩

/-- The first of the many records stands in the file once more. -/
def repeatedRecords : List CandleStick := manyRecords ++ [numbered 0]

/-- The repetition adds no record. -/
theorem mem_repeatedRecords (cs : CandleStick) : cs ∈ repeatedRecords ↔ cs ∈ manyRecords := by
  have hfirst : numbered 0 ∈ manyRecords :=
    List.mem_map_of_mem (List.mem_range.mpr (Nat.succ_pos _))
  rw [repeatedRecords, List.mem_append, List.mem_singleton, or_iff_left_of_imp]
  rintro rfl
  exact hfirst

/-- One task for the first row and one for the others, with moving shuffles. -/
def twoTasks (rows : List (Row names)) : List (Task names) :=
  [⟨rows.take 1, fun _ => finRotate⟩, ⟨rows.drop 1, fun _ => finRotate⟩]

/-- The two tasks have all rows, in order. -/
theorem rows_twoTasks (rows : List (Row names)) : (twoTasks rows).flatMap Task.rows = rows := by
  rw [twoTasks, List.flatMap_cons, List.flatMap_cons, List.flatMap_nil, List.append_nil]
  exact List.take_append_drop 1 rows

/-- Three trees of 6667 records, one of them read twice: the rows are filled in
different orders and trained in two tasks, on 6666 records each. -/
theorem models_of_one_sample_manyRecords :
    ∃ records : List CandleStick, records.Perm manyRecords ∧
      ∃ store : ColumnFamily Comparator.string,
        main Comparator.string Jdk.sample 3 keepThenReverse
          (repeatedRecords.map fun cs => cs.toString Jdk.sample) = .ok store ∧
        ∃ models : List Written, models.length = 3 ∧
          models ⊆ featurePairs.map (modelOf Exact Jdk.sample records) ∧
          run Exact Jdk.sample ⟨Written.tree, List.flatten⟩ (twoTasks (store.map Prod.snd))
              finRotate =
            .ok [(lit "rf", (models.map Written.tree).flatten)] := by
  have hwritable : ∀ cs ∈ repeatedRecords, cs.Writable := fun cs hcs =>
    manyRecords_writable cs ((mem_repeatedRecords cs).mp hcs)
  have hlength : repeatedRecords.length ≤ TRAINING_COUNT := by
    rw [repeatedRecords, List.length_append, length_manyRecords]
    decide
  obtain ⟨records, hmem, hsorted, hjob⟩ := models_of_one_sample Exact Jdk.sample_lawful
    string_separates (oneLine_texts Jdk.sample_lawful hwritable)
    (readTraining_texts Jdk.sample_lawful hlength hwritable)
    (List.append_ne_nil_of_right_ne_nil _ (List.cons_ne_nil _ _))
  have hnodup : records.Nodup := hsorted.imp fun hlt hsame => by
    rw [hsame] at hlt
    exact Comparator.string.lt_asymm hlt hlt
  obtain ⟨store, hmain, hrun⟩ := hjob 3 keepThenReverse (by decide) keepThenReverse_perm
  obtain ⟨models, hcount, hsub, hmodels⟩ := hrun (twoTasks (store.map Prod.snd))
    ⟨Written.tree, List.flatten⟩ finRotate (List.Perm.of_eq (rows_twoTasks _))
  refine ⟨records, ?_, store, hmain, models, hcount, hsub, hmodels⟩
  rw [List.perm_ext_iff_of_nodup hnodup manyRecords_nodup]
  exact fun cs => (hmem cs).trans (mem_repeatedRecords cs)

end Job

end Forex
