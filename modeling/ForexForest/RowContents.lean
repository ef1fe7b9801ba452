import ForexForest.MapReduceForest

/-!
# The records that reach the mapper

The setup program adds one column per record, and the mapper makes one candle
per column.  The text of the record is the name of the column, so the row keeps
every record once: `reads_back_iff` says that a row returns the records that
were added, with their multiplicities, exactly when none of them was added
twice, and `records_reach_mapper_iff` says it of a run of both programs.
-/

namespace Forex

open Java MRRandomForestSetup

namespace GrowTreeMapper

variable {names : Comparator JString} {jdk : Jdk}

/-- The mapper finds, in one part or the other, each of the records as often as
the list holds it. -/
def ReadsBack (jdk : Jdk) (row : Row names) (records : List CandleStick) : Prop :=
  ∃ st, splitColumns jdk (rowSlice row) = .ok st ∧
    (st.trainInstances ++ st.testInstances).Perm records

/-- **The contents of one row.**  A row within the slice returns the records that
it was filled with exactly when they are distinct. -/
theorem reads_back_iff (hjdk : jdk.Lawful) {row : Row names} {records : List CandleStick}
    (hlength : records.length ≤ TRAINING_COUNT) (hwritable : ∀ cs ∈ records, cs.Writable)
    (hrow : ∀ name, name ∈ row.columns ↔ ∃ cs ∈ records, name = cs.toString jdk) :
    ReadsBack jdk row records ↔ records.Nodup := by
  obtain ⟨sorted, hnodup, hmem, hcolumns⟩ := exists_records_of_row hjdk hwritable hrow
  have hfits : sorted.length ≤ TRAINING_COUNT := by
    have hsub : sorted ⊆ records := fun cs hcs => (hmem cs).mp hcs
    exact (hnodup.subperm hsub).length_le.trans hlength
  have hslice : rowSlice row = sorted.map fun cs => cs.toString jdk := by
    rw [rowSlice, hcolumns, List.take_of_length_le]
    rwa [List.length_map]
  have hsplit := splitColumns_eq hjdk fun cs hcs => hwritable cs ((hmem cs).mp hcs)
  have hparts : ReadsBack jdk row records ↔ sorted.Perm records := by
    constructor
    · rintro ⟨st, hst, hperm⟩
      rw [hslice, hsplit] at hst
      rwa [← Except.ok.inj hst, List.take_append_drop] at hperm
    · intro hperm
      refine ⟨_, hslice ▸ hsplit, ?_⟩
      rwa [List.take_append_drop]
  rw [hparts]
  constructor
  · intro hperm
    exact hperm.nodup_iff.mp hnodup
  · intro hdistinct
    exact (List.perm_ext_iff_of_nodup hnodup hdistinct).mpr hmem

end GrowTreeMapper

open GrowTreeMapper

/-- Every row of the store returns the records of the file. -/
def RecordsReachMapper {names : Comparator JString} (jdk : Jdk) (N : Int32)
    (totTraining : List CandleStick) (store : ColumnFamily names) : Prop :=
  ∀ i < N.toInt.toNat, ReadsBack jdk (store.rowAt (rowKey jdk i)) totTraining

/-- **From the file to the mapper.**  For any lines that the setup program reads
and any shuffles, every row returns the records of the file exactly when the
file repeats no record, or there is no row. -/
theorem records_reach_mapper_iff {jdk : Jdk} (hjdk : jdk.Lawful) {names : Comparator JString}
    (hnames : ∀ a b, names.compare a b = 0 → a = b) (N : Int32)
    {shuffle : Nat → List CandleStick → List CandleStick}
    (hshuffle : ∀ i l, (shuffle i l).Perm l) {lines : List JString}
    (hlines : ∀ line ∈ lines, OneLine line) {totTraining : List CandleStick}
    (hread : readTraining jdk lines = .ok totTraining) :
    ∃ store, main names jdk N shuffle lines = .ok store ∧
      (RecordsReachMapper jdk N totTraining store ↔ totTraining.Nodup ∨ N.toInt ≤ 0) := by
  obtain ⟨hlength, hwritable⟩ := readTraining_ok hlines hread
  obtain ⟨store, hmain, hrows⟩ := main_eq_ok hjdk hnames N shuffle hread
  have hround : ∀ i < N.toInt.toNat,
      (ReadsBack jdk (store.rowAt (rowKey jdk i)) totTraining ↔ totTraining.Nodup) := by
    intro i hi
    have hperm := shuffled_perm hshuffle totTraining (i + 1)
    apply reads_back_iff hjdk hlength hwritable
    intro name
    rw [hrows i hi name]
    simp only [hperm.mem_iff]
  refine ⟨store, hmain, ?_⟩
  constructor
  · intro hall
    by_cases hN : N.toInt ≤ 0
    · exact Or.inr hN
    · have hfirst : 0 < N.toInt.toNat := by omega
      exact Or.inl ((hround 0 hfirst).mp (hall 0 hfirst))
  · rintro (hdistinct | hN) i hi
    · exact (hround i hi).mpr hdistinct
    · omega

/-- 6667 records, added in two different orders, come back from both rows. -/
theorem records_reach_mapper_manyRecords :
    ∃ store, main Comparator.string Jdk.sample 2 keepThenReverse manyLines = .ok store ∧
      RecordsReachMapper Jdk.sample 2 manyRecords store := by
  obtain ⟨store, hmain, hiff⟩ := records_reach_mapper_iff Jdk.sample_lawful string_separates 2
    keepThenReverse_perm oneLine_manyLines readTraining_manyLines
  exact ⟨store, hmain, hiff.mpr (Or.inl manyRecords_nodup)⟩

/-- A line that stands in the file twice comes back once. -/
theorem repeated_line_is_lost :
    readTraining Jdk.sample (List.replicate 2 (CandleStick.sample.toString Jdk.sample)) =
      .ok [CandleStick.sample, CandleStick.sample] ∧
    ∃ store, main Comparator.string Jdk.sample 1 (fun _ l => l)
        (List.replicate 2 (CandleStick.sample.toString Jdk.sample)) = .ok store ∧
      ¬ RecordsReachMapper Jdk.sample 1 [CandleStick.sample, CandleStick.sample] store := by
  have hwritable : ∀ cs ∈ [CandleStick.sample, CandleStick.sample], cs.Writable := by
    simp [CandleStick.sample_writable]
  have hread := readTraining_texts Jdk.sample_lawful (by decide) hwritable
  obtain ⟨store, hmain, hrows⟩ :=
    main_eq_ok Jdk.sample_lawful string_separates 1 (fun _ l => l) hread
  refine ⟨hread, store, hmain, fun hall => ?_⟩
  have hdistinct := (reads_back_iff Jdk.sample_lawful (by decide) hwritable
    (hrows 0 (by decide))).mp (hall 0 (by decide))
  exact absurd hdistinct (by simp)

end Forex
