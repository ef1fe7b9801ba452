import ForexForest.BoxedInteger
import ForexForest.ForestAnswers

/-!
# The two programs that train and test in memory

`HW2.main` trains one tree and `HW3.main` a forest.  Both read records, shuffle
them once, keep the first 2000 for testing and the next 8000 for training, ask
the trained classifier about the testing instances and report: a line with the
label and the predicted label of each instance, and a last line with the number
of matches.

The report is written after the classifier has answered, so a run that throws
leaves an empty file behind, and `main` is either the exception or the report.

* `splitInstances_eq`, `splitInstances_fails` — the split needs 10000 records;
* `writeReport_eq` — the report of answers that there are 2000 of;
* `HW2.main_reports_tree`, `HW3.main_reports_forest` — when the programs finish and what they
  report then.
-/

namespace Java

/-- `(double) m / (double) n` for counters: the nearest double, ties to even. -/
def Double.ofQuotient (m n : Nat) : Double :=
  if n = 0 then
    if m = 0 then ⟨false, nanBits, Or.inr ⟨rfl, rfl⟩⟩ else ⟨false, infinityBits, Or.inl le_rfl⟩
  else
    let units := m * 2 ^ 1074
    let exponent := (units / n).log2 - 52
    let divisor := n * 2 ^ exponent
    let significand := units / divisor
    let twice := 2 * (units % divisor)
    let roundsUp := divisor < twice ∨ divisor = twice ∧ significand % 2 = 1
    let mag := exponent * 2 ^ 52 + significand + if roundsUp then 1 else 0
    ⟨false, min mag infinityBits, Or.inl (min_le_right _ _)⟩

section Copies

variable {α : Type}

/-- A viewed part is no longer than a Java list can be. -/
theorem length_of_subList {l part : List α} {fromIndex toIndex : Int32}
    (h : subList l fromIndex toIndex = .ok part) : part.length < 2 ^ 31 := by
  have hto := toIndex.toInt_lt
  rw [(subList_eq_ok h).2, List.length_drop, List.length_take]
  omega

/-- `new ArrayList(list.subList(fromIndex, toIndex))`. -/
def copyOfRange (l : List α) (fromIndex toIndex : Int32) : Except Exception (ArrayList α) :=
  match h : subList l fromIndex toIndex with
  | .error e => .error e
  | .ok part => .ok ⟨part, length_of_subList h⟩

/-- With bounds in order and inside the list the copy is the part between them. -/
theorem copyOfRange_of_le {l : List α} {fromIndex toIndex : Int32} {a b : Nat}
    (hfrom : fromIndex.toInt = a) (hto : toIndex.toInt = b) (hab : a ≤ b) (hb : b ≤ l.length) :
    ∃ copy, copyOfRange l fromIndex toIndex = .ok copy ∧ copy.elements = (l.take b).drop a := by
  have h := subList_of_le hfrom hto hab hb
  refine ⟨⟨_, length_of_subList h⟩, ?_, rfl⟩
  unfold copyOfRange
  split
  · rename_i hsub
    cases hsub.symm.trans h
  · rename_i hsub
    obtain rfl := Except.ok.inj (hsub.symm.trans h)
    rfl

/-- If the copy was made, its upper bound lies inside the list. -/
theorem copyOfRange_eq_ok {l : List α} {fromIndex toIndex : Int32} {copy : ArrayList α}
    (h : copyOfRange l fromIndex toIndex = .ok copy) : toIndex.toInt ≤ l.length := by
  unfold copyOfRange at h
  split at h
  · cases h
  · rename_i hsub
    exact (subList_eq_ok hsub).1

end Copies

end Java

namespace Forex

open Java

/-- `TOTAL_INSTANCES`. -/
def TOTAL_INSTANCES : Nat := 10000

/-- `(int) (TOTAL_INSTANCES*0.2)`. -/
def testCount : Nat := 2000

/-- `args[i]`. -/
def argument (args : List JString) (i : Nat) : Except Exception JString :=
  args[i]?.elim (.error .arrayIndexOutOfBounds) .ok

/-- The lists `testingInstances` and `trainingInstances` of the shuffled records. -/
def splitInstances (totalInstances : List CandleStick) :
    Except Exception (ArrayList CandleStick × ArrayList CandleStick) := do
  let testingInstances ← copyOfRange totalInstances 0 (Int32.ofNat testCount)
  let trainingInstances ←
    copyOfRange totalInstances (Int32.ofNat testCount) (Int32.ofNat TOTAL_INSTANCES)
  return (testingInstances, trainingInstances)

section Report

variable (jdk : Jdk)

/-- The report line of one testing instance. -/
def reportLine (label predicted : Int32) : JString :=
  lit "label: " ++ jdk.intToString label ++ lit "\t" ++ lit "predicted: " ++
    jdk.intToString predicted ++ lit "\n"

/-- The last line of the report. -/
def lastLine (matchCount : Nat) : JString :=
  jdk.intToString (Int32.ofNat matchCount) ++ lit " out of 2000 predicted correctly. prob=" ++
    jdk.doubleToString (Double.ofQuotient matchCount 2000) ++ lit "\n"

/-- The body of the report loop, on the lines written so far and `matchCount`. -/
def reportRound (testingInstances : List CandleStick) (predictedLabels : List Int32)
    (st : List JString × Nat) (i : Nat) : Except Exception (List JString × Nat) := do
  let cs ← listGet testingInstances i
  let predicted ← listGet predictedLabels i
  return (st.1 ++ [reportLine jdk cs.label predicted],
    if cs.label = predicted then st.2 + 1 else st.2)

/-- The report loop and the last line. -/
def writeReport (testingInstances : List CandleStick) (predictedLabels : List Int32) :
    Except Exception (List JString) := do
  let (written, matchCount) ←
    (List.range testCount).foldlM (reportRound jdk testingInstances predictedLabels) ([], 0)
  return written ++ [lastLine jdk matchCount]

end Report

/-- `HW2.main`, on the lines of the input file, where both files can be opened and
the output is not the input file. -/
def HW2.main (D : Type) [Arith D] (jdk : Jdk) (shuffle : Shuffle) (args lines : List JString) :
    Except Exception (List JString) := do
  let _ ← argument args 0
  let _ ← argument args 1
  let totalInstances ← (lines.take TOTAL_INSTANCES).mapM (CandleStick.readRecord jdk)
  let (testingInstances, trainingInstances) ← splitInstances (shuffle.apply totalInstances)
  let root : DTNode D := SingleTree.buildDTree trainingInstances.elements
  let predictedLabels ← classifyTree root testingInstances.elements
  writeReport jdk testingInstances.elements predictedLabels

/-- `HW3.main`, on the lines of the input file, where both files can be opened and
the output is not the input file; the first shuffle is its own, the others are those
of `buildForest`.  A vote may hold more labels than the first table of a map has
room for, so the order of iteration is a parameter. -/
def HW3.main (D : Type) [Arith D] (jdk : Jdk) (shuffle shuffleFeatures : Nat → Shuffle)
    (order : IterationOrder) (args lines : List JString) : Except Exception (List JString) := do
  let _ ← argument args 0
  let _ ← argument args 1
  let totalInstances ← lines.mapM (CandleStick.readRecord jdk)
  let (testingInstances, trainingInstances) ← splitInstances ((shuffle 0).apply totalInstances)
  let N ← parseIntCell jdk (some (← argument args 2))
  let rf : ForestState CandleStick D ←
    RandomForest.buildForest (fun i => shuffle (i + 1)) shuffleFeatures N trainingInstances
  let predictedLabels ←
    (RandomForest.built N rf).classify order.entrySet testingInstances.elements
  writeReport jdk testingInstances.elements predictedLabels

section Split

variable {totalInstances : List CandleStick}

/-- With 10000 records the first 2000 are tested and the next 8000 trained on. -/
theorem splitInstances_eq (h : TOTAL_INSTANCES ≤ totalInstances.length) :
    ∃ testingInstances trainingInstances,
      splitInstances totalInstances = .ok (testingInstances, trainingInstances) ∧
      testingInstances.elements = totalInstances.take 2000 ∧
      trainingInstances.elements = (totalInstances.take 10000).drop 2000 := by
  have hlength : 10000 ≤ totalInstances.length := h
  obtain ⟨testing, htesting, hfront⟩ := copyOfRange_of_le (l := totalInstances)
    (a := 0) (b := 2000) (show (0 : Int32).toInt = (0 : Nat) from rfl)
    (show (Int32.ofNat testCount).toInt = (2000 : Nat) by decide) (Nat.zero_le _) (by omega)
  obtain ⟨training, htraining, hback⟩ := copyOfRange_of_le (l := totalInstances)
    (a := 2000) (b := 10000) (show (Int32.ofNat testCount).toInt = (2000 : Nat) by decide)
    (show (Int32.ofNat TOTAL_INSTANCES).toInt = (10000 : Nat) by decide) (by omega) hlength
  refine ⟨testing, training, ?_, by rw [hfront, List.drop_zero], hback⟩
  rw [splitInstances, htesting, ok_bind, htraining]
  rfl

/-- With fewer records the split fails. -/
theorem splitInstances_fails (h : totalInstances.length < TOTAL_INSTANCES)
    (parts : ArrayList CandleStick × ArrayList CandleStick) :
    splitInstances totalInstances ≠ .ok parts := by
  intro hsplit
  obtain ⟨testing, -, hrest⟩ := bind_eq_ok hsplit
  obtain ⟨training, htraining, -⟩ := bind_eq_ok hrest
  have hsize := copyOfRange_eq_ok htraining
  have htotal : (Int32.ofNat TOTAL_INSTANCES).toInt = (TOTAL_INSTANCES : Nat) := by decide
  omega

end Split

section Writing

variable {jdk : Jdk} {testingInstances : List CandleStick} {predictedLabels : List Int32}

/-- The lines and matches of the first rounds of the report loop. -/
theorem foldlM_reportRound {n : Nat} (htest : n ≤ testingInstances.length)
    (hpredicted : n ≤ predictedLabels.length) :
    (List.range n).foldlM (reportRound jdk testingInstances predictedLabels) ([], 0) =
      .ok (((testingInstances.zip predictedLabels).take n).map
          (fun pair => reportLine jdk pair.1.label pair.2),
        ((testingInstances.zip predictedLabels).take n).countP
          fun pair => pair.1.label = pair.2) := by
  induction n with
  | zero => rfl
  | succ n ih =>
      have hlt : n < testingInstances.length := htest
      have hlt' : n < predictedLabels.length := hpredicted
      have hzip : n < (testingInstances.zip predictedLabels).length := by
        rw [List.length_zip]
        omega
      have htake : (testingInstances.zip predictedLabels).take (n + 1) =
          (testingInstances.zip predictedLabels).take n ++
            [(testingInstances[n], predictedLabels[n])] := by
        rw [List.take_succ_eq_append_getElem hzip, List.getElem_zip]
      rw [List.range_succ, foldlM_snoc (ih hlt.le hlt'.le), reportRound, listGet_of_lt hlt,
        ok_bind, listGet_of_lt hlt', ok_bind, htake, List.map_append, List.countP_append]
      by_cases hsame : testingInstances[n].label = predictedLabels[n]
      · simp [hsame]
        rfl
      · simp [hsame]
        rfl

/-- The report of 2000 answers. -/
theorem writeReport_eq (htest : testingInstances.length = testCount)
    (hpredicted : predictedLabels.length = testCount) :
    writeReport jdk testingInstances predictedLabels =
      .ok ((testingInstances.zip predictedLabels).map
          (fun pair => reportLine jdk pair.1.label pair.2) ++
        [lastLine jdk ((testingInstances.zip predictedLabels).countP
          fun pair => pair.1.label = pair.2)]) := by
  have hall : (testingInstances.zip predictedLabels).take testCount =
      testingInstances.zip predictedLabels := by
    apply List.take_of_length_le
    rw [List.length_zip]
    omega
  rw [writeReport, foldlM_reportRound htest.ge hpredicted.ge, ok_bind, hall]
  rfl

end Writing

/-- A report: a line for each testing instance with a label that answers it, and
the number of lines on which the two labels are equal. -/
def Reports (jdk : Jdk) (answered : CandleStick → Int32 → Prop)
    (testingInstances : List CandleStick) (matchCount : Nat) (written : List JString) : Prop :=
  ∃ predictedLabels, List.Forall₂ answered testingInstances predictedLabels ∧
    matchCount + RandomForest.errorCount testingInstances predictedLabels =
      testingInstances.length ∧
    written = (testingInstances.zip predictedLabels).map
      (fun pair => reportLine jdk pair.1.label pair.2) ++ [lastLine jdk matchCount]

/-- What is written about 2000 answers is a report. -/
theorem writeReport_reports (jdk : Jdk) {answered : CandleStick → Int32 → Prop}
    {testingInstances : List CandleStick} {answer : CandleStick → Int32}
    (htest : testingInstances.length = testCount)
    (hanswered : ∀ cs ∈ testingInstances, answered cs (answer cs)) :
    ∃ matchCount written,
      writeReport jdk testingInstances (testingInstances.map answer) = .ok written ∧
      matchCount + RandomForest.errorCount testingInstances (testingInstances.map answer) =
        testingInstances.length ∧
      Reports jdk answered testingInstances matchCount written := by
  have hlength : (testingInstances.map answer).length = testCount := by
    rw [List.length_map, htest]
  have hcount : (testingInstances.zip (testingInstances.map answer)).countP
      (fun pair => pair.1.label = pair.2) +
      RandomForest.errorCount testingInstances (testingInstances.map answer) =
      testingInstances.length := by
    have hall := (testingInstances.zip (testingInstances.map answer)).length_eq_countP_add_countP
      fun pair => pair.1.label = pair.2
    rw [List.length_zip, List.length_map, Nat.min_self] at hall
    rw [hall, RandomForest.errorCount]
    simp
  refine ⟨_, _, writeReport_eq htest hlength, hcount, _, ?_, hcount, rfl⟩
  rw [List.forall₂_map_right_iff, List.forall₂_same]
  exact hanswered

section Reading

variable {jdk : Jdk} {lines : List JString}

/-- A loop over lines that are all readable. -/
theorem exists_records (h : ∀ line ∈ lines, ∃ cs, CandleStick.readRecord jdk line = .ok cs) :
    ∃ records, lines.mapM (CandleStick.readRecord jdk) = .ok records := by
  induction lines with
  | nil => exact ⟨[], rfl⟩
  | cons line lines ih =>
      obtain ⟨cs, hcs⟩ := h line List.mem_cons_self
      obtain ⟨records, hrecords⟩ := ih fun other hother => h other (List.mem_cons_of_mem _ hother)
      refine ⟨cs :: records, ?_⟩
      rw [List.mapM_cons, hcs, ok_bind, hrecords]
      rfl

/-- A loop that returns has read every line. -/
theorem readable_of_mapM {records : List CandleStick}
    (h : lines.mapM (CandleStick.readRecord jdk) = .ok records) :
    ∀ line ∈ lines, ∃ cs, CandleStick.readRecord jdk line = .ok cs := by
  intro line hline
  obtain ⟨k, hk, rfl⟩ := List.mem_iff_getElem.mp hline
  have hrounds := forall₂_of_mapM h
  have hk' : k < records.length := hrounds.length_eq ▸ hk
  exact ⟨records[k], hrounds.get hk hk'⟩

/-- An argument that is there is read. -/
theorem argument_eq_ok {args : List JString} {i : Nat} (h : i < args.length) :
    argument args i = .ok args[i] := by
  rw [argument, List.getElem?_eq_getElem h]
  rfl

/-- An argument that was read is there. -/
theorem lt_of_argument {args : List JString} {i : Nat} {arg : JString}
    (h : argument args i = .ok arg) : args[i]? = some arg := by
  unfold argument at h
  cases harg : args[i]? with
  | none => rw [harg] at h; cases h
  | some a => rw [harg] at h; exact congrArg some (Except.ok.inj h)

end Reading

section SingleTree

variable (D : Type) [Arith D] {jdk : Jdk} (shuffle : Shuffle) {args lines : List JString}

/-- What the single tree answers: the label that it finds, which a training
instance has. -/
def HW2.Answers (trainingInstances : List CandleStick) (cs : CandleStick) (label : Int32) :
    Prop :=
  findMatch (SingleTree.buildDTree trainingInstances : DTNode D) cs = .ok label ∧
    ∃ x ∈ trainingInstances, x.label = label

/-- A tree trained on something has its answer for every candle. -/
theorem HW2.answers_predicted {trainingInstances : List CandleStick} (hne : trainingInstances ≠ [])
    (cs : CandleStick) : HW2.Answers D trainingInstances cs
      (RandomForest.predicted (SingleTree.buildDTree trainingInstances : DTNode D) cs) := by
  obtain ⟨x, hx, hfind⟩ := findMatch_growTree (calcEntropy : List CandleStick → D) false
    [0, 1, 2, 3] hne cs
  have hpredicted : RandomForest.predicted (SingleTree.buildDTree trainingInstances : DTNode D) cs =
      x.label := by
    rw [RandomForest.predicted, SingleTree.buildDTree, hfind]
  rw [hpredicted]
  exact ⟨hfind, x, hx, rfl⟩

/-- Once 10000 records are read, the program reports what the tree of the last 8000
in the shuffled order predicts for the first 2000. -/
theorem HW2.main_eq {records : List CandleStick} (hargs : 2 ≤ args.length)
    (hread : (lines.take TOTAL_INSTANCES).mapM (CandleStick.readRecord jdk) = .ok records)
    (hlength : records.length = TOTAL_INSTANCES) :
    let testing := (shuffle.apply records).take 2000
    let training := (shuffle.apply records).drop 2000
    testing.length = testCount ∧ training ≠ [] ∧
      HW2.main D jdk shuffle args lines = writeReport jdk testing (testing.map
        (RandomForest.predicted (SingleTree.buildDTree training : DTNode D))) := by
  intro testing training
  have hshuffled : (shuffle.apply records).length = 10000 := by
    rw [Shuffle.length_apply, hlength]
    rfl
  obtain ⟨test, train, hsplit, htest, htrain⟩ :=
    splitInstances_eq (show TOTAL_INSTANCES ≤ (shuffle.apply records).length from hshuffled.ge)
  rw [List.take_of_length_le hshuffled.le] at htrain
  have hne : training ≠ [] := by
    rw [← List.length_pos_iff, List.length_drop]
    omega
  refine ⟨?_, hne, ?_⟩
  · rw [List.length_take, hshuffled]
    rfl
  · rw [HW2.main, argument_eq_ok (by omega), ok_bind, argument_eq_ok (by omega), ok_bind, hread,
      ok_bind, hsplit, ok_bind]
    simp only [htest, htrain]
    rw [classifyTree_eq fun cs _ => ⟨_, (HW2.answers_predicted D hne cs).1⟩, ok_bind]

/-- Once 10000 records are read, the program reports. -/
theorem HW2.main_of_records {records : List CandleStick} (hargs : 2 ≤ args.length)
    (hread : (lines.take TOTAL_INSTANCES).mapM (CandleStick.readRecord jdk) = .ok records)
    (hlength : records.length = TOTAL_INSTANCES) :
    ∃ matchCount written, HW2.main D jdk shuffle args lines = .ok written ∧
      Reports jdk (HW2.Answers D ((shuffle.apply records).drop 2000))
        ((shuffle.apply records).take 2000) matchCount written := by
  obtain ⟨htest, hne, hmain⟩ := HW2.main_eq D shuffle hargs hread hlength
  obtain ⟨matchCount, written, hwritten, -, hreports⟩ := writeReport_reports jdk htest
    fun cs _ => HW2.answers_predicted D hne cs
  exact ⟨matchCount, written, hmain.trans hwritten, hreports⟩

/-- A run that reports has read 10000 records. -/
theorem HW2.records_of_main {written : List JString}
    (h : HW2.main D jdk shuffle args lines = .ok written) :
    2 ≤ args.length ∧ ∃ records,
      (lines.take TOTAL_INSTANCES).mapM (CandleStick.readRecord jdk) = .ok records ∧
      records.length = TOTAL_INSTANCES := by
  obtain ⟨_, -, h⟩ := bind_eq_ok h
  obtain ⟨_, hargs, h⟩ := bind_eq_ok h
  obtain ⟨records, hread, h⟩ := bind_eq_ok h
  obtain ⟨parts, hsplit, -⟩ := bind_eq_ok h
  obtain ⟨hlt, -⟩ := List.getElem?_eq_some_iff.mp (lt_of_argument hargs)
  refine ⟨hlt, records, hread, le_antisymm ?_ ?_⟩
  · rw [← (forall₂_of_mapM hread).length_eq, List.length_take]
    exact min_le_left _ _
  · by_contra hfew
    refine splitInstances_fails ?_ parts hsplit
    rw [Shuffle.length_apply]
    omega

/-- **The single-tree program.**  It reports exactly when both file names are given
and the file begins with 10000 readable records.  The report is about 2000 of
these records, tested by the tree of the other 8000. -/
theorem HW2.main_reports_tree (jdk : Jdk) (shuffle : Shuffle) (args lines : List JString) :
    ((∃ written, HW2.main D jdk shuffle args lines = .ok written) ↔
      2 ≤ args.length ∧ TOTAL_INSTANCES ≤ lines.length ∧
        ∀ line ∈ lines.take TOTAL_INSTANCES, ∃ cs, CandleStick.readRecord jdk line = .ok cs) ∧
    ∀ written, HW2.main D jdk shuffle args lines = .ok written →
      ∃ records testingInstances trainingInstances matchCount,
        List.Forall₂ (fun line cs => CandleStick.readRecord jdk line = .ok cs)
          (lines.take TOTAL_INSTANCES) records ∧
        testingInstances.length = 2000 ∧ trainingInstances.length = 8000 ∧
        (testingInstances ++ trainingInstances).Perm records ∧
        Reports jdk (HW2.Answers D trainingInstances) testingInstances matchCount written := by
  constructor
  · constructor
    · intro hex
      obtain ⟨written, h⟩ := hex
      obtain ⟨hargs, records, hread, hlength⟩ := HW2.records_of_main D shuffle h
      refine ⟨hargs, ?_, readable_of_mapM hread⟩
      rw [← (forall₂_of_mapM hread).length_eq, List.length_take] at hlength
      omega
    · intro hall
      obtain ⟨hargs, hlines, hreadable⟩ := hall
      obtain ⟨records, hread⟩ := exists_records hreadable
      have hlength : records.length = TOTAL_INSTANCES := by
        rw [← (forall₂_of_mapM hread).length_eq, List.length_take]
        omega
      obtain ⟨-, written, hmain, -⟩ := HW2.main_of_records D shuffle hargs hread hlength
      exact ⟨written, hmain⟩
  · intro written h
    obtain ⟨hargs, records, hread, hlength⟩ := HW2.records_of_main D shuffle h
    obtain ⟨matchCount, written', hmain, hreports⟩ :=
      HW2.main_of_records D shuffle hargs hread hlength
    obtain rfl := Except.ok.inj (hmain.symm.trans h)
    refine ⟨records, _, _, matchCount, forall₂_of_mapM hread, ?_, ?_, ?_, hreports⟩
    · rw [List.length_take, Shuffle.length_apply, hlength]
      rfl
    · rw [List.length_drop, Shuffle.length_apply, hlength]
      rfl
    · rw [List.take_append_drop]
      exact shuffle.apply_perm records

end SingleTree

section ForestRun

variable (D : Type) [Arith D] {jdk : Jdk} {shuffle shuffleFeatures : Nat → Shuffle}
  {order : IterationOrder} {args lines : List JString}

/-- A run of the forest program: it has trained a forest on 8000 of the records
and reports what the forest answers on 2000 others. -/
structure HW3.Run (jdk : Jdk) (shuffle shuffleFeatures : Nat → Shuffle) (N : Int32)
    (records testingInstances : List CandleStick) (trainingInstances : ArrayList CandleStick)
    (forest : ForestState CandleStick D) (matchCount : Nat) (written : List JString) : Prop where
  test_length : testingInstances.length = 2000
  train_length : trainingInstances.elements.length = 8000
  parts : (testingInstances ++ trainingInstances.elements).Subperm records
  built : RandomForest.buildForest (fun i => shuffle (i + 1)) shuffleFeatures N
    trainingInstances = .ok forest
  reports : Reports jdk (RandomForest.Plurality (RandomForest.built N forest).trees)
    testingInstances matchCount written
  errors : N.toInt.toNat * (2000 - matchCount) ≤
    2 * ((RandomForest.built N forest).trees.map (RandomForest.treeErrors testingInstances)).sum

/-- Once 10000 records are read and the number of trees is positive, the program
reports. -/
theorem HW3.main_of_records {records : List CandleStick} (hargs : 2 < args.length)
    {N : Int32} (hparse : jdk.parseInt args[2] = some N) (hN : 0 < N.toInt)
    (hread : lines.mapM (CandleStick.readRecord jdk) = .ok records)
    (hlength : TOTAL_INSTANCES ≤ records.length) :
    ∃ testing training forest matchCount written,
      HW3.main D jdk shuffle shuffleFeatures order args lines = .ok written ∧
      HW3.Run D jdk shuffle shuffleFeatures N records testing training forest matchCount
        written := by
  have hshuffled : TOTAL_INSTANCES ≤ ((shuffle 0).apply records).length := by
    rwa [Shuffle.length_apply]
  have hmany : 10000 ≤ ((shuffle 0).apply records).length := hshuffled
  obtain ⟨testing, training, hsplit, htesting, htraining⟩ := splitInstances_eq hshuffled
  have htest : testing.elements.length = 2000 := by
    rw [htesting, List.length_take]
    omega
  have htrain : training.elements.length = 8000 := by
    rw [htraining, List.length_drop, List.length_take]
    omega
  have hforest := RandomForest.buildForest_eq (D := D) (fun i => shuffle (i + 1)) shuffleFeatures
    N (by rw [htrain]; norm_num) (by rw [htrain]; norm_num)
  generalize ForestState.mk _ _ _ _ = forest at hforest
  have htrained := RandomForest.buildForest_trained _ _ (fun _ => True) hN
    (by rw [htrain]; norm_num) (fun _ _ => trivial) hforest
  have hclassify := RandomForest.classify_eq order.entrySet_perm htrained testing.elements
  obtain ⟨matchCount, written, hwritten, hcount, hreports⟩ := writeReport_reports jdk
    (show testing.elements.length = testCount from htest)
    fun cs _ => RandomForest.plurality_answer order.entrySet_perm htrained cs
  refine ⟨testing.elements, training, forest, matchCount, written, ?_, htest, htrain, ?_, hforest,
    hreports, ?_⟩
  · rw [HW3.main, argument_eq_ok (by omega), ok_bind, argument_eq_ok (by omega), ok_bind, hread,
      ok_bind, hsplit, ok_bind]
    simp only
    rw [argument_eq_ok hargs, ok_bind, parseIntCell, hparse]
    change (RandomForest.buildForest _ _ N training >>= _) = _
    rw [hforest, ok_bind, hclassify, ok_bind, hwritten]
  · have hfront : testing.elements = (((shuffle 0).apply records).take 10000).take 2000 := by
      rw [htesting, List.take_take]
      rfl
    rw [hfront, htraining, List.take_append_drop]
    exact (List.take_sublist _ _).subperm.trans ((shuffle 0).apply_perm records).subperm
  · have herrors := RandomForest.errorCount_answers_le order.entrySet_perm htrained
      testing.elements
    have hrest : 2000 - matchCount = RandomForest.errorCount testing.elements
        (testing.elements.map
          (RandomForest.answer order.entrySet (RandomForest.built N forest).trees)) := by
      omega
    rw [hrest]
    exact herrors

/-- A run that reports has read 10000 records and a positive number of trees. -/
theorem HW3.records_of_main {written : List JString}
    (h : HW3.main D jdk shuffle shuffleFeatures order args lines = .ok written) :
    ∃ (hargs : 2 < args.length) (N : Int32) (records : List CandleStick),
      jdk.parseInt args[2] = some N ∧ 0 < N.toInt ∧
      lines.mapM (CandleStick.readRecord jdk) = .ok records ∧
      TOTAL_INSTANCES ≤ records.length := by
  obtain ⟨_, -, h⟩ := bind_eq_ok h
  obtain ⟨_, -, h⟩ := bind_eq_ok h
  obtain ⟨records, hread, h⟩ := bind_eq_ok h
  obtain ⟨parts, hsplit, h⟩ := bind_eq_ok h
  obtain ⟨arg, harg, h⟩ := bind_eq_ok h
  obtain ⟨N, hparse, h⟩ := bind_eq_ok h
  obtain ⟨forest, -, h⟩ := bind_eq_ok h
  obtain ⟨predictedLabels, hclassify, -⟩ := bind_eq_ok h
  obtain ⟨hargs, rfl⟩ := List.getElem?_eq_some_iff.mp (lt_of_argument harg)
  refine ⟨hargs, N, records, ?_, ?_, hread, ?_⟩
  · rw [parseIntCell] at hparse
    cases htext : jdk.parseInt args[2] with
    | none => rw [htext] at hparse; cases hparse
    | some n => rw [htext] at hparse; exact congrArg some (Except.ok.inj hparse)
  · -- without trees there is no first list of labels
    by_contra hnone
    have hzero : N.toInt.toNat = 0 := by omega
    rw [RandomForest.classify, RandomForest.built, hzero] at hclassify
    cases hclassify
  · by_contra hfew
    refine splitInstances_fails ?_ parts hsplit
    rw [Shuffle.length_apply]
    omega

/-- **The forest program.**  It reports exactly when the third argument is a
positive number, and every line of the file is a readable record and there are
10000 of them.  The report is about 2000 of the records and plurality labels of a
forest that was trained on 8000 others, and the forest errs on them at most twice
as often as its trees do on the average. -/
theorem HW3.main_reports_forest (jdk : Jdk) (shuffle shuffleFeatures : Nat → Shuffle)
    (order : IterationOrder) (args lines : List JString) :
    ((∃ written, HW3.main D jdk shuffle shuffleFeatures order args lines = .ok written) ↔
      (∃ (hargs : 2 < args.length) (N : Int32), jdk.parseInt args[2] = some N ∧ 0 < N.toInt) ∧
        TOTAL_INSTANCES ≤ lines.length ∧
        ∀ line ∈ lines, ∃ cs, CandleStick.readRecord jdk line = .ok cs) ∧
    ∀ written, HW3.main D jdk shuffle shuffleFeatures order args lines = .ok written →
      ∃ (hargs : 2 < args.length) (N : Int32) (records testing : List CandleStick)
        (training : ArrayList CandleStick) (forest : ForestState CandleStick D)
        (matchCount : Nat), jdk.parseInt args[2] = some N ∧
        List.Forall₂ (fun line cs => CandleStick.readRecord jdk line = .ok cs) lines records ∧
        HW3.Run D jdk shuffle shuffleFeatures N records testing training forest matchCount
          written := by
  constructor
  · constructor
    · intro hex
      obtain ⟨written, h⟩ := hex
      obtain ⟨hargs, N, records, hparse, hN, hread, hlength⟩ := HW3.records_of_main D h
      refine ⟨⟨hargs, N, hparse, hN⟩, ?_, readable_of_mapM hread⟩
      rwa [(forall₂_of_mapM hread).length_eq]
    · intro hall
      obtain ⟨⟨hargs, N, hparse, hN⟩, hlines, hreadable⟩ := hall
      obtain ⟨records, hread⟩ := exists_records hreadable
      have hlength : TOTAL_INSTANCES ≤ records.length := by
        rwa [← (forall₂_of_mapM hread).length_eq]
      obtain ⟨-, -, -, -, written, hmain, -⟩ :=
        HW3.main_of_records D hargs hparse hN hread hlength
      exact ⟨written, hmain⟩
  · intro written h
    obtain ⟨hargs, N, records, hparse, hN, hread, hlength⟩ := HW3.records_of_main D h
    obtain ⟨testing, training, forest, matchCount, written', hmain, hrun⟩ :=
      HW3.main_of_records D hargs hparse hN hread hlength
    obtain rfl := Except.ok.inj (hmain.symm.trans h)
    exact ⟨hargs, N, records, testing, training, forest, matchCount, hparse,
      forall₂_of_mapM hread, hrun⟩

end ForestRun

end Forex
