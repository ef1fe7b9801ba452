import ForexForest.ColumnFamily
import ForexForest.CsvRoundTrip
import ForexForest.JavaLists

/-!
# From the shuffles to the samples of the map-reduce forest

`MRRandomForestSetup.main` reads the training records, shuffles them once per
tree and adds each record as a column of the tree's row, named by the text of
the record.  `GrowTreeMapper.map` reads a row back, trains on its first
`TRAINING_COUNT*2/3` columns and tests on the others.

Between the two the columns are sorted by name, so a row is the same whatever
the shuffle (`rowAt_setup`), and the mapper trains on the records with the
smallest texts (`splitColumns_eq`).  `sample_eq_iff` says when that is the
beginning of the shuffled order after all.
-/

namespace Forex

open Java

namespace MRRandomForestSetup

/-- `TRAINING_COUNT`. -/
def TRAINING_COUNT : Nat := 10000

/-- The reading loop of `main`, over the lines of the file. -/
def readTraining (jdk : Jdk) (lines : List JString) : Except Exception (List CandleStick) :=
  (lines.take TRAINING_COUNT).mapM (CandleStick.readRecord jdk)

/-- `"key-if-verse"+i`. -/
def rowKey (jdk : Jdk) (i : Nat) : JString :=
  lit "key-if-verse" ++ jdk.intToString (Int32.ofNat i)

variable {names : Comparator JString}

/-- The inner loop of `main`: a column for each record. -/
def addRecords (jdk : Jdk) (key : JString) (totTraining : List CandleStick)
    (store : ColumnFamily names) : ColumnFamily names :=
  totTraining.foldl (fun store cs => store.add key (cs.toString jdk)) store

/-- The body of the outer loop of `main`. -/
def fillRow (jdk : Jdk) (shuffle : Nat → List CandleStick → List CandleStick)
    (st : List CandleStick × ColumnFamily names) (i : Nat) :
    List CandleStick × ColumnFamily names :=
  let totTraining := shuffle i st.1
  (totTraining, addRecords jdk (rowKey jdk i) totTraining st.2)

variable (names)

/-- `main`, with the order of the column names and the outcomes of the shuffles
as parameters. -/
def main (jdk : Jdk) (N : Int32) (shuffle : Nat → List CandleStick → List CandleStick)
    (lines : List JString) : Except Exception (ColumnFamily names) := do
  let totTraining ← readTraining jdk lines
  return ((List.range N.toInt.toNat).foldl (fillRow jdk shuffle) (totTraining, [])).2

/-- The list after the first shuffles; the `i`-th shuffle, counted from zero,
produces `shuffled (i + 1)`. -/
def shuffled (shuffle : Nat → List CandleStick → List CandleStick)
    (totTraining : List CandleStick) : Nat → List CandleStick
  | 0 => totTraining
  | i + 1 => shuffle i (shuffled shuffle totTraining i)

end MRRandomForestSetup

namespace GrowTreeMapper

open MRRandomForestSetup

/-- The columns that the slice predicate of the job fetches from a row. -/
def rowSlice {names : Comparator JString} (row : Row names) : List JString :=
  row.columns.take 10000

/-- The two lists that the loop of `map` fills, and its counter. -/
structure Split where
  trainInstances : List CandleStick
  testInstances : List CandleStick
  count : Nat

/-- The body of the loop of `map`. -/
def addColumn (jdk : Jdk) (st : Split) (name : JString) : Except Exception Split := do
  let cs ← CandleStick.ofRecord jdk name
  if st.count < TRAINING_COUNT * 2 / 3 then
    return { st with trainInstances := st.trainInstances ++ [cs], count := st.count + 1 }
  else
    return { st with testInstances := st.testInstances ++ [cs], count := st.count + 1 }

/-- The loop of `map` over the columns of its row. -/
def splitColumns (jdk : Jdk) (columns : List JString) : Except Exception Split :=
  columns.foldlM (addColumn jdk) ⟨[], [], 0⟩

end GrowTreeMapper

namespace MRRandomForestSetup

section Rows

variable {names : Comparator JString} {jdk : Jdk}
  {shuffle : Nat → List CandleStick → List CandleStick}

/-- Any number of shuffles leave a permutation of the records. -/
theorem shuffled_perm (hshuffle : ∀ i l, (shuffle i l).Perm l)
    (totTraining : List CandleStick) (i : Nat) :
    (shuffled shuffle totTraining i).Perm totTraining := by
  induction i with
  | zero => exact List.Perm.refl _
  | succ i ih => exact (hshuffle i _).trans ih

/-- Different trees have different rows. -/
theorem rowKey_ne (hjdk : jdk.Lawful) {i j : Nat} (hi : i < 2 ^ 31) (hj : j < 2 ^ 31)
    (hij : i ≠ j) : rowKey jdk i ≠ rowKey jdk j := by
  intro h
  have hint := hjdk.intToString_inj (List.append_cancel_left h)
  have hval := congrArg Int32.toInt hint
  rw [Int32.toInt_ofNat_of_lt hi, Int32.toInt_ofNat_of_lt hj] at hval
  exact hij (Int.ofNat.inj hval)

/-- After `n` rounds the list is the one after `n` shuffles, the rows of these
rounds hold the texts of the records, and the later rows hold nothing. -/
theorem rowAt_setup (hjdk : jdk.Lawful) (hnames : ∀ a b, names.compare a b = 0 → a = b)
    (shuffle : Nat → List CandleStick → List CandleStick) (totTraining : List CandleStick)
    (n : Nat) (hn : n ≤ 2 ^ 31) :
    ∃ store : ColumnFamily names,
      (List.range n).foldl (fillRow jdk shuffle) (totTraining, []) =
        (shuffled shuffle totTraining n, store) ∧
      (∀ i < n, ∀ name, name ∈ (store.rowAt (rowKey jdk i)).columns ↔
        ∃ cs ∈ shuffled shuffle totTraining (i + 1), name = cs.toString jdk) ∧
      ∀ i < 2 ^ 31, n ≤ i → ∀ name, name ∉ (store.rowAt (rowKey jdk i)).columns := by
  induction n with
  | zero =>
      refine ⟨[], rfl, fun i hi => absurd hi (Nat.not_lt_zero i), fun i _ _ name => ?_⟩
      exact List.not_mem_nil
  | succ n ih =>
      obtain ⟨store, hstore, hrows, hempty⟩ := ih (by omega)
      refine ⟨addRecords jdk (rowKey jdk n) (shuffled shuffle totTraining (n + 1)) store,
        ?_, fun i hi name => ?_, fun i hi hni name => ?_⟩
      · rw [List.range_succ, List.foldl_append, hstore]
        rfl
      · by_cases hin : i = n
        · subst hin
          rw [addRecords, ColumnFamily.mem_rowAt_foldl_add hnames]
          exact or_iff_right (hempty i hn le_rfl name)
        · rw [addRecords, ColumnFamily.rowAt_foldl_add_of_ne _
            (rowKey_ne hjdk hn (by omega) (Ne.symm hin))]
          exact hrows i (by omega) name
      · rw [addRecords, ColumnFamily.rowAt_foldl_add_of_ne _
          (rowKey_ne hjdk hn hi (by omega))]
        exact hempty i hi (by omega) name

/-- What the reading loop returns: writable candles, at most `TRAINING_COUNT`. -/
theorem readTraining_ok {lines : List JString} {totTraining : List CandleStick}
    (hlines : ∀ line ∈ lines, OneLine line)
    (h : readTraining jdk lines = .ok totTraining) :
    totTraining.length ≤ TRAINING_COUNT ∧ ∀ cs ∈ totTraining, cs.Writable := by
  have hrounds := forall₂_of_mapM h
  constructor
  · rw [← hrounds.length_eq, List.length_take]
    exact min_le_left _ _
  · intro cs hcs
    obtain ⟨line, hline, hread⟩ := exists_of_forall₂ hrounds hcs
    exact CandleStick.Writable.of_readRecord (hlines line (List.mem_of_mem_take hline)) hread

end Rows

end MRRandomForestSetup

namespace GrowTreeMapper

open MRRandomForestSetup

variable {jdk : Jdk}

/-- On columns named by candles the mapper trains on the first two thirds of
`TRAINING_COUNT`. -/
theorem splitColumns_eq (hjdk : jdk.Lawful) {instances : List CandleStick}
    (hwritable : ∀ cs ∈ instances, cs.Writable) :
    splitColumns jdk (instances.map fun cs => cs.toString jdk) =
      .ok ⟨instances.take (TRAINING_COUNT * 2 / 3), instances.drop (TRAINING_COUNT * 2 / 3),
        instances.length⟩ := by
  induction instances using List.reverseRecOn with
  | nil => rfl
  | append_singleton instances cs ih =>
      have hread : CandleStick.ofRecord jdk (cs.toString jdk) = .ok cs :=
        CandleStick.ofRecord_toString hjdk (hwritable cs (by simp))
      have hinit := ih fun d hd => hwritable d (List.mem_append_left _ hd)
      rw [splitColumns, List.map_append, List.map_singleton, foldlM_snoc hinit, addColumn, hread,
        ok_bind]
      by_cases hlt : instances.length < TRAINING_COUNT * 2 / 3
      · obtain ⟨htake, hdrop⟩ := concat_front hlt cs
        rw [if_pos hlt, htake, hdrop, List.length_append]
        rfl
      · obtain ⟨htake, hdrop⟩ := concat_back (not_lt.mp hlt) cs
        rw [if_neg hlt, htake, hdrop, List.length_append]
        rfl

/-- The columns of a row that holds the texts of some records are these records,
each of them once, sorted by their texts. -/
theorem exists_records_of_row {names : Comparator JString} (hjdk : jdk.Lawful)
    {row : Row names} {records : List CandleStick} (hwritable : ∀ cs ∈ records, cs.Writable)
    (hrow : ∀ name, name ∈ row.columns ↔ ∃ cs ∈ records, name = cs.toString jdk) :
    ∃ sorted : List CandleStick, sorted.Nodup ∧ (∀ cs, cs ∈ sorted ↔ cs ∈ records) ∧
      row.columns = sorted.map fun cs => cs.toString jdk := by
  have hlift : ∀ columns : List JString, (∀ name ∈ columns, name ∈ row.columns) →
      ∃ sorted : List CandleStick, columns = sorted.map (fun cs => cs.toString jdk) ∧
        ∀ cs ∈ sorted, cs ∈ records := by
    intro columns
    induction columns with
    | nil => exact fun _ => ⟨[], rfl, fun cs hcs => absurd hcs List.not_mem_nil⟩
    | cons name columns ih =>
        intro hmem
        obtain ⟨cs, hcs, rfl⟩ := (hrow name).mp (hmem name List.mem_cons_self)
        obtain ⟨sorted, rfl, hsorted⟩ := ih fun u hu => hmem u (List.mem_cons_of_mem _ hu)
        exact ⟨cs :: sorted, rfl, List.forall_mem_cons.mpr ⟨hcs, hsorted⟩⟩
  obtain ⟨sorted, hcolumns, hsub⟩ := hlift row.columns fun _ h => h
  refine ⟨sorted, ?_, fun cs => ⟨hsub cs, fun hcs => ?_⟩, hcolumns⟩
  · have hrowNodup := row.nodup
    rw [hcolumns] at hrowNodup
    exact List.Nodup.of_map _ hrowNodup
  · have hname : cs.toString jdk ∈ row.columns := (hrow _).mpr ⟨cs, hcs, rfl⟩
    rw [hcolumns] at hname
    obtain ⟨d, hd, htext⟩ := List.mem_map.mp hname
    have hsame := CandleStick.toString_inj hjdk (hwritable d (hsub d hd)) (hwritable cs hcs) htext
    rwa [← hsame]

/-- Distinct records come back one for one. -/
theorem exists_sorted_records {names : Comparator JString} (hjdk : jdk.Lawful)
    {row : Row names} {records : List CandleStick} (hwritable : ∀ cs ∈ records, cs.Writable)
    (hdistinct : records.Nodup)
    (hrow : ∀ name, name ∈ row.columns ↔ ∃ cs ∈ records, name = cs.toString jdk) :
    ∃ sorted : List CandleStick, sorted.Perm records ∧
      row.columns = sorted.map (fun cs => cs.toString jdk) ∧
      sorted.Pairwise fun a b => names.compare (a.toString jdk) (b.toString jdk) < 0 := by
  obtain ⟨sorted, hnodup, hmem, hcolumns⟩ := exists_records_of_row hjdk hwritable hrow
  refine ⟨sorted, (List.perm_ext_iff_of_nodup hnodup hdistinct).mpr hmem, hcolumns, ?_⟩
  have hrowSorted := row.sorted
  rwa [hcolumns, List.pairwise_map] at hrowSorted

/-- **The sample of one row.**  The mapper splits the row without failure, and
trains on the front of the order in which the records were added exactly when
the smallest texts stand there. -/
theorem sample_eq_iff {names : Comparator JString} (hjdk : jdk.Lawful)
    {row : Row names} {order : List CandleStick} (hlength : order.length ≤ TRAINING_COUNT)
    (hwritable : ∀ cs ∈ order, cs.Writable) (hdistinct : order.Nodup)
    (hrow : ∀ name, name ∈ row.columns ↔ ∃ cs ∈ order, name = cs.toString jdk) :
    (∃ st, splitColumns jdk (rowSlice row) = .ok st ∧
      ∀ cs, cs ∈ st.trainInstances ↔ cs ∈ order.take (TRAINING_COUNT * 2 / 3)) ↔
    ∀ a ∈ order.take (TRAINING_COUNT * 2 / 3), ∀ b ∈ order.drop (TRAINING_COUNT * 2 / 3),
      names.compare (a.toString jdk) (b.toString jdk) < 0 := by
  obtain ⟨sorted, hperm, hcolumns, hsorted⟩ :=
    exists_sorted_records hjdk hwritable hdistinct hrow
  have hslice : rowSlice row = sorted.map fun cs => cs.toString jdk := by
    rw [rowSlice, hcolumns, List.take_of_length_le]
    rw [List.length_map, hperm.length_eq]
    exact hlength
  have hsplit := splitColumns_eq hjdk fun cs hcs => hwritable cs (hperm.mem_iff.mp hcs)
  rw [hslice, hsplit, ← mem_take_sorted_iff (fun _ _ => names.lt_asymm) hsorted hperm]
  constructor
  · rintro ⟨st, hst, htrain⟩
    rwa [← Except.ok.inj hst] at htrain
  · intro h
    exact ⟨_, rfl, h⟩

end GrowTreeMapper

open MRRandomForestSetup GrowTreeMapper

/-- The samples follow the shuffles: for every tree, the mapper splits the tree's
row and trains on the first records of the order that the tree's shuffle
produced. -/
def SamplesFollowShuffles {names : Comparator JString} (jdk : Jdk) (N : Int32)
    (shuffle : Nat → List CandleStick → List CandleStick) (totTraining : List CandleStick)
    (store : ColumnFamily names) : Prop :=
  ∀ i < N.toInt.toNat, ∃ st, splitColumns jdk (rowSlice (store.rowAt (rowKey jdk i))) = .ok st ∧
    ∀ cs, cs ∈ st.trainInstances ↔
      cs ∈ (shuffled shuffle totTraining (i + 1)).take (TRAINING_COUNT * 2 / 3)

/-- Every shuffle leaves the smallest texts in front. -/
def SmallestInFront (names : Comparator JString) (jdk : Jdk) (N : Int32)
    (shuffle : Nat → List CandleStick → List CandleStick) (totTraining : List CandleStick) :
    Prop :=
  ∀ i < N.toInt.toNat,
    ∀ a ∈ (shuffled shuffle totTraining (i + 1)).take (TRAINING_COUNT * 2 / 3),
    ∀ b ∈ (shuffled shuffle totTraining (i + 1)).drop (TRAINING_COUNT * 2 / 3),
      names.compare (a.toString jdk) (b.toString jdk) < 0

/-- A run of the setup program leaves the texts of the records in every row. -/
theorem main_eq_ok {jdk : Jdk} (hjdk : jdk.Lawful) {names : Comparator JString}
    (hnames : ∀ a b, names.compare a b = 0 → a = b) (N : Int32)
    (shuffle : Nat → List CandleStick → List CandleStick) {lines : List JString}
    {totTraining : List CandleStick} (hread : readTraining jdk lines = .ok totTraining) :
    ∃ store, main names jdk N shuffle lines = .ok store ∧
      ∀ i < N.toInt.toNat, ∀ name, name ∈ (store.rowAt (rowKey jdk i)).columns ↔
        ∃ cs ∈ shuffled shuffle totTraining (i + 1), name = cs.toString jdk := by
  have hN : N.toInt.toNat ≤ 2 ^ 31 := by
    have := N.toInt_lt
    omega
  obtain ⟨store, hstore, hrows, -⟩ := rowAt_setup hjdk hnames shuffle totTraining _ hN
  refine ⟨store, ?_, hrows⟩
  rw [main, hread, ok_bind, hstore]
  rfl

/-- On such a store the samples follow the shuffles exactly when every shuffle
leaves the smallest texts in front. -/
theorem samplesFollowShuffles_iff {jdk : Jdk} (hjdk : jdk.Lawful) {names : Comparator JString}
    {N : Int32} {shuffle : Nat → List CandleStick → List CandleStick}
    (hshuffle : ∀ i l, (shuffle i l).Perm l) {totTraining : List CandleStick}
    (hlength : totTraining.length ≤ TRAINING_COUNT) (hwritable : ∀ cs ∈ totTraining, cs.Writable)
    (hdistinct : totTraining.Nodup) {store : ColumnFamily names}
    (hrows : ∀ i < N.toInt.toNat, ∀ name, name ∈ (store.rowAt (rowKey jdk i)).columns ↔
      ∃ cs ∈ shuffled shuffle totTraining (i + 1), name = cs.toString jdk) :
    SamplesFollowShuffles jdk N shuffle totTraining store ↔
      SmallestInFront names jdk N shuffle totTraining := by
  refine forall₂_congr fun i hi => ?_
  have hperm := shuffled_perm hshuffle totTraining (i + 1)
  exact sample_eq_iff hjdk (hperm.length_eq ▸ hlength)
    (fun cs hcs => hwritable cs (hperm.mem_iff.mp hcs)) (hperm.nodup_iff.mpr hdistinct)
    (hrows i hi)

/-- **Random sampling.**  For any distinct records that the setup program reads
and any shuffles, the samples of the mapper follow the shuffles exactly when
every shuffle leaves the smallest texts in front. -/
theorem samples_follow_shuffles_iff {jdk : Jdk} (hjdk : jdk.Lawful) {names : Comparator JString}
    (hnames : ∀ a b, names.compare a b = 0 → a = b) (N : Int32)
    {shuffle : Nat → List CandleStick → List CandleStick}
    (hshuffle : ∀ i l, (shuffle i l).Perm l) {lines : List JString}
    (hlines : ∀ line ∈ lines, OneLine line) {totTraining : List CandleStick}
    (hread : readTraining jdk lines = .ok totTraining) (hdistinct : totTraining.Nodup) :
    ∃ store, main names jdk N shuffle lines = .ok store ∧
      (SamplesFollowShuffles jdk N shuffle totTraining store ↔
        SmallestInFront names jdk N shuffle totTraining) := by
  obtain ⟨hlength, hwritable⟩ := readTraining_ok hlines hread
  obtain ⟨store, hmain, hrows⟩ := main_eq_ok hjdk hnames N shuffle hread
  exact ⟨store, hmain,
    samplesFollowShuffles_iff hjdk hshuffle hlength hwritable hdistinct hrows⟩

/-- The names of a text column family are told apart by their comparator. -/
theorem string_separates (a b : JString) (h : Comparator.string.compare a b = 0) : a = b :=
  compareTo_eq_zero_iff.mp h

/-- The setup program reads back the texts of writable candles. -/
theorem readTraining_texts {jdk : Jdk} (hjdk : jdk.Lawful) {records : List CandleStick}
    (hlength : records.length ≤ TRAINING_COUNT) (hwritable : ∀ cs ∈ records, cs.Writable) :
    readTraining jdk (records.map fun cs => cs.toString jdk) = .ok records := by
  have hback : ∀ cs ∈ records,
      (CandleStick.readRecord jdk ∘ fun cs => CandleStick.toString jdk cs) cs = .ok (id cs) :=
    fun cs hcs => CandleStick.readRecord_toString hjdk (hwritable cs hcs)
  rw [readTraining, List.take_of_length_le (by simpa using hlength), List.mapM_map,
    mapM_eq_ok hback, List.map_id]

/-- The texts of writable candles are lines of a file. -/
theorem oneLine_texts {jdk : Jdk} (hjdk : jdk.Lawful) {records : List CandleStick}
    (hwritable : ∀ cs ∈ records, cs.Writable) :
    ∀ line ∈ records.map fun cs => cs.toString jdk, OneLine line := by
  intro line hline
  obtain ⟨cs, hcs, rfl⟩ := List.mem_map.mp hline
  rw [CandleStick.toString_eq]
  exact OneLine.joinFields (CandleStick.oneLine_of_mem_fields hjdk (hwritable cs hcs) _)

/-- When a shuffle happens to sort the records by their texts, the smallest texts
stand in front. -/
theorem smallest_of_sort {jdk : Jdk} (hjdk : jdk.Lawful) {names : Comparator JString}
    (hnames : ∀ a b, names.compare a b = 0 → a = b) {records : List CandleStick}
    (hwritable : ∀ cs ∈ records, cs.Writable) (hdistinct : records.Nodup) (k : Nat) :
    ∀ a ∈ ((names.comap fun cs => cs.toString jdk).sort records).take k,
    ∀ b ∈ ((names.comap fun cs => cs.toString jdk).sort records).drop k,
      names.compare (a.toString jdk) (b.toString jdk) < 0 := by
  intro a ha b hb
  have hperm := (names.comap fun cs => cs.toString jdk).sort_perm records
  have hle : names.compare (a.toString jdk) (b.toString jdk) ≤ 0 :=
    Comparator.take_le_drop _ (Comparator.sort_pairwise _ records) ha hb
  refine lt_of_le_of_ne hle fun htie => ?_
  have hsame : a = b := CandleStick.toString_inj hjdk
    (hwritable a (hperm.mem_iff.mp (List.mem_of_mem_take ha)))
    (hwritable b (hperm.mem_iff.mp (List.mem_of_mem_drop hb))) (hnames _ _ htie)
  rw [hsame] at ha
  exact List.disjoint_take_drop (hperm.nodup_iff.mpr hdistinct) le_rfl ha hb

section ManyRecords

/-- The `j`-th of many records, told apart by their times. -/
def numbered (j : Nat) : CandleStick :=
  { CandleStick.sample with time := lit "20150803 " ++ digits j }

/-- The numbered records are different, for their times end in different digits. -/
theorem numbered_inj {j k : Nat} (h : numbered j = numbered k) : j = k := by
  have htime := congrArg CandleStick.time h
  have hdigits : digits j = digits k := List.append_cancel_left htime
  rw [← ofDigits_digits j, hdigits, ofDigits_digits]

/-- Their fields are without commas and line breaks. -/
theorem numbered_writable (j : Nat) : (numbered j).Writable := by
  obtain ⟨hdigits, hdigitsLine⟩ := digits_text j
  have hday : IsField (lit "20150803 ") ∧ OneLine (lit "20150803 ") := by
    constructor <;> decide
  refine ⟨CandleStick.sample_writable.pair_field, CandleStick.sample_writable.pair_oneLine,
    ⟨by simp [numbered, lit], ?_⟩, hday.2.append hdigitsLine⟩
  intro hcomma
  exact (List.mem_append.mp hcomma).elim hday.1.2 hdigits.2

/-- One record more than a sample holds. -/
def manyRecords : List CandleStick := (List.range (TRAINING_COUNT * 2 / 3 + 1)).map numbered

theorem length_manyRecords : manyRecords.length = TRAINING_COUNT * 2 / 3 + 1 := by
  rw [manyRecords, List.length_map, List.length_range]

theorem manyRecords_nodup : manyRecords.Nodup := List.nodup_range.map fun _ _ => numbered_inj

theorem manyRecords_writable : ∀ cs ∈ manyRecords, cs.Writable := by
  intro cs hcs
  obtain ⟨j, -, rfl⟩ := List.mem_map.mp hcs
  exact numbered_writable j

/-- The file of these records. -/
def manyLines : List JString := manyRecords.map fun cs => cs.toString Jdk.sample

theorem oneLine_manyLines : ∀ line ∈ manyLines, OneLine line :=
  oneLine_texts Jdk.sample_lawful manyRecords_writable

/-- The setup program reads all of them back. -/
theorem readTraining_manyLines : readTraining Jdk.sample manyLines = .ok manyRecords :=
  readTraining_texts Jdk.sample_lawful (by rw [length_manyRecords]; decide) manyRecords_writable

/-- The first shuffle sorts the records by their texts, the second one turns the
front of the list around. -/
def sortThenTurn (i : Nat) (l : List CandleStick) : List CandleStick :=
  if i = 0 then (Comparator.string.comap fun cs => cs.toString Jdk.sample).sort l
  else (l.take (TRAINING_COUNT * 2 / 3)).reverse ++ l.drop (TRAINING_COUNT * 2 / 3)

/-- Sorting and turning only move the records. -/
theorem sortThenTurn_perm (i : Nat) (l : List CandleStick) : (sortThenTurn i l).Perm l := by
  unfold sortThenTurn
  split_ifs
  · exact Comparator.sort_perm _ l
  · have hturned := (l.take (TRAINING_COUNT * 2 / 3)).reverse_perm.append_right
      (l.drop (TRAINING_COUNT * 2 / 3))
    rwa [List.take_append_drop] at hturned

/-- The orders of the first and of the second tree. -/
theorem shuffled_sortThenTurn {l : List CandleStick} :
    shuffled sortThenTurn l (0 + 1) =
        (Comparator.string.comap fun cs => cs.toString Jdk.sample).sort l ∧
      shuffled sortThenTurn l (1 + 1) =
        sortThenTurn 1 ((Comparator.string.comap fun cs => cs.toString Jdk.sample).sort l) :=
  ⟨rfl, rfl⟩

/-- Turning the front around keeps the same records in front and behind. -/
theorem mem_turned {l : List CandleStick} (hlength : TRAINING_COUNT * 2 / 3 ≤ l.length)
    (cs : CandleStick) :
    (cs ∈ (sortThenTurn 1 l).take (TRAINING_COUNT * 2 / 3) ↔
        cs ∈ l.take (TRAINING_COUNT * 2 / 3)) ∧
      (cs ∈ (sortThenTurn 1 l).drop (TRAINING_COUNT * 2 / 3) ↔
        cs ∈ l.drop (TRAINING_COUNT * 2 / 3)) := by
  have hfront : (l.take (TRAINING_COUNT * 2 / 3)).reverse.length = TRAINING_COUNT * 2 / 3 := by
    rw [List.length_reverse, List.length_take, min_eq_left hlength]
  rw [sortThenTurn, if_neg Nat.one_ne_zero, List.take_left' hfront, List.drop_left' hfront,
    List.mem_reverse]
  exact ⟨Iff.rfl, Iff.rfl⟩

/-- Both trees train on the 6666 smallest names of 6667, in whatever order the
shuffles have put them. -/
theorem samples_follow_shuffles_manyRecords :
    ∃ store, main Comparator.string Jdk.sample 2 sortThenTurn manyLines = .ok store ∧
      SamplesFollowShuffles Jdk.sample 2 sortThenTurn manyRecords store := by
  obtain ⟨store, hmain, hiff⟩ := samples_follow_shuffles_iff Jdk.sample_lawful string_separates 2
    sortThenTurn_perm oneLine_manyLines readTraining_manyLines manyRecords_nodup
  refine ⟨store, hmain, hiff.mpr fun i hi a ha b hb => ?_⟩
  have hsorted := smallest_of_sort Jdk.sample_lawful string_separates manyRecords_writable
    manyRecords_nodup (TRAINING_COUNT * 2 / 3)
  have hlength : TRAINING_COUNT * 2 / 3 ≤
      ((Comparator.string.comap fun cs => cs.toString Jdk.sample).sort manyRecords).length := by
    rw [(Comparator.sort_perm _ manyRecords).length_eq, length_manyRecords]
    exact Nat.le_succ _
  rcases Nat.lt_succ_iff_lt_or_eq.mp (show i < 1 + 1 from hi) with hfirst | rfl
  · rw [Nat.lt_one_iff.mp hfirst, shuffled_sortThenTurn.1] at ha hb
    exact hsorted a ha b hb
  · rw [shuffled_sortThenTurn.2] at ha hb
    exact hsorted a ((mem_turned hlength a).1.mp ha) b ((mem_turned hlength b).2.mp hb)

/-- The first shuffle leaves the list as it is, the second one reverses it. -/
def keepThenReverse (i : Nat) (l : List CandleStick) : List CandleStick :=
  if i = 0 then l else l.reverse

/-- Keeping and reversing only move the records. -/
theorem keepThenReverse_perm (i : Nat) (l : List CandleStick) : (keepThenReverse i l).Perm l := by
  unfold keepThenReverse
  split_ifs
  · exact List.Perm.refl l
  · exact List.reverse_perm l

/-- In a list of `k + 1` elements the first is among the first `k` and the last
is not. -/
theorem ends_of_length {α : Type} {x y : α} {middle : List α} {k : Nat}
    (hlength : (x :: middle ++ [y]).length = k + 1) :
    x ∈ (x :: middle ++ [y]).take k ∧ y ∈ (x :: middle ++ [y]).drop k := by
  have hmiddle : (x :: middle).length = k := by
    rw [List.length_append] at hlength
    simpa using hlength
  refine ⟨?_, ?_⟩
  · rw [← hmiddle, List.take_left']
    · exact List.mem_cons_self
    · rfl
  · rw [← hmiddle, List.drop_left']
    · exact List.mem_singleton.mpr rfl
    · rfl

/-- Two shuffles of the same distinct records cannot both be followed: the first
record would have to stand before the last one and behind it. -/
theorem two_shuffles_one_sample :
    manyRecords.Nodup ∧ (∀ i l, (keepThenReverse i l).Perm l) ∧
    readTraining Jdk.sample (manyRecords.map fun cs => cs.toString Jdk.sample) =
      .ok manyRecords ∧
    ∃ store, main Comparator.string Jdk.sample 2 keepThenReverse
        (manyRecords.map fun cs => cs.toString Jdk.sample) = .ok store ∧
      ¬ SamplesFollowShuffles Jdk.sample 2 keepThenReverse manyRecords store := by
  have hlength : manyRecords.length ≤ TRAINING_COUNT := by
    rw [length_manyRecords]
    decide
  obtain ⟨store, hmain, hrows⟩ :=
    main_eq_ok Jdk.sample_lawful string_separates 2 keepThenReverse
      readTraining_manyLines
  refine ⟨manyRecords_nodup, keepThenReverse_perm, readTraining_manyLines, store, hmain,
    fun hfollow => ?_⟩
  have hfront := (samplesFollowShuffles_iff Jdk.sample_lawful keepThenReverse_perm hlength
    manyRecords_writable manyRecords_nodup hrows).mp hfollow
  obtain ⟨x, tail, hx⟩ : ∃ x tail, manyRecords = x :: tail :=
    List.exists_cons_of_ne_nil (List.ne_nil_of_length_pos (by rw [length_manyRecords]; decide))
  obtain ⟨middle, y, rfl⟩ : ∃ middle y, tail = middle ++ [y] := by
    refine ⟨tail.dropLast, tail.getLast ?_, (List.dropLast_append_getLast _).symm⟩
    intro hnil
    have hone : [x].length = TRAINING_COUNT * 2 / 3 + 1 := by rw [← length_manyRecords, hx, hnil]
    rw [List.length_singleton] at hone
    exact absurd hone (by decide)
  have hlen : (x :: middle ++ [y]).length = TRAINING_COUNT * 2 / 3 + 1 := by
    rw [← length_manyRecords, hx]
    rfl
  have hrev : (y :: middle.reverse ++ [x]).length = TRAINING_COUNT * 2 / 3 + 1 := by
    rw [← hlen]
    simp
  obtain ⟨hxFront, hyBack⟩ := ends_of_length hlen
  obtain ⟨hyFront, hxBack⟩ := ends_of_length hrev
  have hfirst : shuffled keepThenReverse manyRecords 1 = x :: middle ++ [y] := hx
  have hsecond : shuffled keepThenReverse manyRecords 2 = y :: middle.reverse ++ [x] := by
    change manyRecords.reverse = _
    rw [hx]
    simp
  have hlt := hfront 0 (by decide) x (by rw [hfirst]; exact hxFront) y
    (by rw [hfirst]; exact hyBack)
  have hgt := hfront 1 (by decide) y (by rw [hsecond]; exact hyFront) x
    (by rw [hsecond]; exact hxBack)
  exact Comparator.string.lt_asymm hlt hgt

end ManyRecords

end Forex
