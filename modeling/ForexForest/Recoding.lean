import ForexForest.Evaluation
import ForexForest.MapperSplit

/-!
# What the learner sees of a file

The learner compares candles by one feature at a time and counts labels; it never
looks at the pair, and at times and prices only through their order.  So a file may
be recoded: other units, another time zone, another pair, as long as the order of
the records by every feature stays what it was (`Recodes`).

The tree of the recoded list is the recoded tree (`growTree_recoded`), and it
answers recoded candles as before (`findMatch_recoded`).  The report shows labels
only, so both programs report the same on the recoded file
(`HW2.main_recoded`, `HW3.main_recoded_forest`).
-/

namespace Java

variable {α β γ : Type}

/-- A step behind a replaced result. -/
theorem replaced_bind {x : Except Exception α} {g : α → β} {k : β → Except Exception γ}
    {k' : α → Except Exception γ} (h : ∀ a, k (g a) = k' a) : (x.map g >>= k) = (x >>= k') := by
  cases x with
  | error e => rfl
  | ok a => exact h a

/-- A loop over replaced elements. -/
theorem mapM_map_eq {f : α → β} {k : β → Except Exception γ} {k' : α → Except Exception γ}
    {l : List α} (h : ∀ a ∈ l, k (f a) = k' a) : (l.map f).mapM k = l.mapM k' := by
  induction l with
  | nil => rfl
  | cons a l ih =>
      rw [List.map_cons, List.mapM_cons, List.mapM_cons, h a List.mem_cons_self,
        ih fun b hb => h b (List.mem_cons_of_mem a hb)]

/-- Reading a position commutes with a map, the exception included. -/
theorem listGet_map (f : α → β) (l : List α) (i : Nat) :
    listGet (l.map f) i = (listGet l i).map f := by
  rw [listGet, listGet, List.getElem?_map]
  cases l[i]? with
  | none => rfl
  | some a => rfl

/-- `copyOfRange` throws what `subList` throws. -/
theorem copyOfRange_error {l : List α} {fromIndex toIndex : Int32} {e : Exception}
    (h : subList l fromIndex toIndex = .error e) : copyOfRange l fromIndex toIndex = .error e := by
  unfold copyOfRange
  split
  · rename_i hsub
    exact congrArg Except.error (Except.error.inj (hsub.symm.trans h))
  · rename_i hsub
    cases hsub.symm.trans h

end Java

namespace Forex

open Java Arith

/-- On these candles `f` keeps the order by every feature, and it keeps the labels. -/
structure Recodes (f : CandleStick → CandleStick) (l : List CandleStick) : Prop where
  order : ∀ a ∈ l, ∀ b ∈ l, ∀ i : Int, (f a).compareWith (f b) i < 0 ↔ a.compareWith b i < 0
  label : ∀ a, (f a).label = a.label

namespace Recodes

variable {f : CandleStick → CandleStick} {l l' : List CandleStick}

/-- A recoding of a list recodes its parts. -/
theorem mono (h : Recodes f l) (hsub : l' ⊆ l) : Recodes f l' :=
  ⟨fun a ha b hb => h.order a (hsub ha) b (hsub hb), h.label⟩

/-- A recoding does not see the order of the list. -/
theorem of_perm (h : Recodes f l) (hperm : l'.Perm l) : Recodes f l' := h.mono hperm.subset

/-- Sorting goes by the order. -/
theorem sortBy_eq (h : Recodes f l) (i : Int) : sortBy i (l.map f) = (sortBy i l).map f := by
  rw [sortBy_eq_sort, sortBy_eq_sort]
  refine (List.map_insertionSort _ _ f l fun a ha b hb => ?_).symm
  rw [Comparator.le_iff_not_lt, Comparator.le_iff_not_lt]
  exact not_congr (h.order b hb a ha i).symm

/-- The entropy counts labels, and these are kept. -/
theorem calcEntropy_eq {D : Type} [Arith D] (h : Recodes f l) (l' : List CandleStick) :
    (calcEntropy (l'.map f) : D) = calcEntropy l' := by
  have hadd : ∀ (counts : LabelCounts) (cs : CandleStick), counts.add (f cs) = counts.add cs := by
    intro counts cs
    simp only [LabelCounts.add, h.label]
  simp only [calcEntropy, List.foldl_map, hadd, List.length_map]

end Recodes

section Learner

variable {D : Type} [Arith D] {f : CandleStick → CandleStick} {stopsAtOne : Bool}
  {featureIdx : List Int} {instances l : List CandleStick}

/-- The loops run alike on the recoded list. -/
theorem search_recoded (h : Recodes f instances) (entropy : D) :
    search calcEntropy entropy featureIdx (instances.map f) =
      ((search calcEntropy entropy featureIdx instances).1.map f,
        (search calcEntropy entropy featureIdx instances).2.map f) := by
  have hloop : ∀ (st : List CandleStick × Best D), Recodes f st.1 →
      featureIdx.foldl (tryFeature calcEntropy entropy) (st.1.map f, st.2.map f) =
        ((featureIdx.foldl (tryFeature calcEntropy entropy) st).1.map f,
          (featureIdx.foldl (tryFeature calcEntropy entropy) st).2.map f) := by
    induction featureIdx with
    | nil => exact fun st _ => rfl
    | cons i featureIdx ih =>
        intro st hst
        have hround : tryFeature calcEntropy entropy (st.1.map f, st.2.map f) i =
            ((tryFeature calcEntropy entropy st i).1.map f,
              (tryFeature calcEntropy entropy st i).2.map f) := by
          simp only [tryFeature, hst.sortBy_eq, List.length_map]
          rw [List.foldl_hom (Best.map f) fun best k =>
            tryThreshold_map hst.calcEntropy_eq entropy i (sortBy i st.1) best k]
        rw [List.foldl_cons, List.foldl_cons, hround, ih]
        exact hst.of_perm (sortBy_perm i st.1)
  exact hloop (instances, Best.start) h

/-- **Growing commutes with recoding.** -/
theorem growTree_recoded (h : Recodes f instances) :
    (growTree calcEntropy stopsAtOne featureIdx (instances.map f) : DTNode D) =
      (growTree calcEntropy stopsAtOne featureIdx instances).map f := by
  induction hn : instances.length using Nat.strong_induction_on generalizing instances with
  | _ n ih =>
      rw [growTree, growTree]
      simp only [h.calcEntropy_eq, List.length_map, search_recoded h]
      have hattr : ∀ best : Best D, (best.map f).bestAttr = best.bestAttr := fun _ => rfl
      simp only [hattr]
      split_ifs with hstop hnone
      · rfl
      · rfl
      · rcases search_cases calcEntropy (calcEntropy instances : D) featureIdx instances with
          hstart | ⟨c, hc, hbest⟩
        · exact absurd (congrArg Best.bestAttr hstart) hnone
        · obtain ⟨-, hperm, -⟩ := mem_cuts hc
          have hcut := h.of_perm hperm
          have hleft := ih c.left.length (hn ▸ cut_left_length_lt hc)
            (hcut.mono (List.take_subset _ _)) rfl
          have hright := ih c.right.length (hn ▸ cut_right_length_lt hc)
            (hcut.mono (List.drop_subset _ _)) rfl
          rw [hbest, DTNode.map]
          congr 1

/-- A leaf answers with a label, and labels are kept. -/
theorem firstLabel_recoded (h : Recodes f l) (instances : List CandleStick) :
    firstLabel (instances.map f) = firstLabel instances := by
  cases instances with
  | nil => rfl
  | cons a rest => exact congrArg Except.ok (h.label a)

/-- A recoded tree answers recoded candles as the tree answered the candles. -/
theorem Grown.findMatch_recoded (h : Recodes f l) {t : DTNode D}
    (ht : Grown (calcEntropy : List CandleStick → D) stopsAtOne featureIdx instances t)
    (hsub : instances ⊆ l) {cs : CandleStick} (hcs : cs ∈ l) :
    findMatch (t.map f) (f cs) = findMatch t cs := by
  induction ht with
  | @pure instances hstop =>
      rw [findMatch_leafNode, leafNode, DTNode.map, DTNode.map]
      exact (findMatch_leafNode _ _ _).trans (firstLabel_recoded h instances)
  | @exhausted instances hstop hnone =>
      rw [findMatch_leafNode, leafNode, DTNode.map, DTNode.map]
      exact (findMatch_leafNode _ _ _).trans (firstLabel_recoded h _)
  | @split instances c left right hstop hc hattr hbest hleft hright ihleft ihright =>
      obtain ⟨-, hperm, -⟩ := mem_cuts hc
      have hcut : c.instances ⊆ l := List.Subset.trans hperm.subset hsub
      have hbranch : inLeftBranch c.attr (c.instances[c.idx]?.map f) (f cs) =
          inLeftBranch c.attr c.instances[c.idx]? cs := by
        cases hthreshold : c.instances[c.idx]? with
        | none => rfl
        | some threshold =>
            have horder := h.order cs hcs threshold (hcut (List.mem_of_getElem? hthreshold)) c.attr
            exact congrArg Except.ok (decide_eq_decide.mpr horder)
      rw [DTNode.map, findMatch, findMatch, isNull_map, isNull_map, hbranch,
        firstLabel_recoded h, ihleft (List.Subset.trans (List.take_subset _ _) hcut),
        ihright (List.Subset.trans (List.drop_subset _ _) hcut)]

/-- A tree of the recoded list answers a recoded candle as the tree of the list
answers the candle. -/
theorem findMatch_growTree_recoded (h : Recodes f l) (hsub : instances ⊆ l) {cs : CandleStick}
    (hcs : cs ∈ l) :
    findMatch (growTree calcEntropy stopsAtOne featureIdx (instances.map f) : DTNode D) (f cs) =
      findMatch (growTree calcEntropy stopsAtOne featureIdx instances : DTNode D) cs := by
  rw [growTree_recoded (h.mono hsub)]
  exact (grown_growTree calcEntropy stopsAtOne featureIdx instances).findMatch_recoded h hsub hcs

end Learner

section Forest

variable {D : Type} [Arith D] {f : CandleStick → CandleStick} {l : List CandleStick}
  {testingInstances : List CandleStick}

/-- Trees that answer the recoded candles as before do so one by one. -/
theorem classifyTree_recoded {root root' : DTNode D}
    (h : ∀ cs ∈ testingInstances, findMatch root' (f cs) = findMatch root cs) :
    classifyTree root' (testingInstances.map f) = classifyTree root testingInstances :=
  mapM_map_eq h

namespace RandomForest

variable {shuffle shuffleFeatures : Nat → Shuffle} {instances : List CandleStick}

/-- The shuffles move positions. -/
theorem trainPart_recoded (i : Nat) :
    trainPart shuffle (instances.map f) i = (trainPart shuffle instances i).map f := by
  rw [trainPart, trainPart, afterShuffles_map, List.length_map, List.map_take]

/-- A sample holds instances of the list only. -/
theorem trainPart_subset (i : Nat) : trainPart shuffle instances i ⊆ instances :=
  List.Subset.trans (List.take_subset _ _) (afterShuffles_perm shuffle instances (i + 1)).subset

/-- The forest of the recoded instances answers recoded candles as before. -/
theorem classify_recoded (h : Recodes f l) (hsub : instances ⊆ l) (htest : testingInstances ⊆ l)
    (entrySet : Entries Int32 Nat → Entries Int32 Nat) (n k : Nat) :
    (RandomForest.mk n ((List.range k).map fun i =>
        (treeOf (D := D) shuffle shuffleFeatures (instances.map f) i).root)).classify entrySet
          (testingInstances.map f) =
      (RandomForest.mk n ((List.range k).map fun i =>
        (treeOf (D := D) shuffle shuffleFeatures instances i).root)).classify entrySet
          testingInstances := by
  have htree : ∀ i,
      classifyTree (treeOf (D := D) shuffle shuffleFeatures (instances.map f) i).root
        (testingInstances.map f) =
      classifyTree (treeOf (D := D) shuffle shuffleFeatures instances i).root
        testingInstances := by
    intro i
    refine classifyTree_recoded fun cs hcs => ?_
    simp only [treeOf, Forest.buildDTree, trainPart_recoded]
    exact findMatch_growTree_recoded h (List.Subset.trans (trainPart_subset i) hsub) (htest hcs)
  rw [classify, classify]
  congr 1
  congr 1
  funext i
  rw [listGet_map, listGet_map]
  exact (replaced_bind fun j => htree j).trans (replaced_bind fun j => rfl).symm

end RandomForest

end Forest

section Programs

variable {D : Type} [Arith D] {jdk : Jdk} {f : CandleStick → CandleStick}
  {records : List CandleStick}

/-- With fewer records the split throws the exception of `subList`. -/
theorem splitInstances_error (h : records.length < TOTAL_INSTANCES) :
    splitInstances records = .error .indexOutOfBounds := by
  have hcount : (Int32.ofNat testCount).toInt = (2000 : Nat) := by decide
  have htotal : (Int32.ofNat TOTAL_INSTANCES).toInt = (10000 : Nat) := by decide
  rw [TOTAL_INSTANCES] at h
  by_cases htests : records.length < 2000
  · have htest : subList records 0 (Int32.ofNat testCount) = .error .indexOutOfBounds := by
      rw [subList, hcount, if_neg (by decide), if_pos (by omega)]
    rw [splitInstances, copyOfRange_error htest]
    rfl
  · have htrain : subList records (Int32.ofNat testCount) (Int32.ofNat TOTAL_INSTANCES) =
        .error .indexOutOfBounds := by
      rw [subList, hcount, htotal, if_neg (by omega), if_pos (by omega)]
    obtain ⟨testing, htesting, -⟩ := copyOfRange_of_le (l := records)
      (show (0 : Int32).toInt = (0 : Nat) from rfl) hcount (Nat.zero_le _) (not_lt.mp htests)
    rw [splitInstances, htesting, ok_bind, copyOfRange_error htrain]
    rfl

/-- A report shows labels. -/
theorem writeReport_recoded (hlabel : ∀ cs, (f cs).label = cs.label)
    (testingInstances : List CandleStick) (predictedLabels : List Int32) :
    writeReport jdk (testingInstances.map f) predictedLabels =
      writeReport jdk testingInstances predictedLabels := by
  have hround : reportRound jdk (testingInstances.map f) predictedLabels =
      reportRound jdk testingInstances predictedLabels := by
    funext st i
    rw [reportRound, reportRound, listGet_map]
    refine replaced_bind fun cs => ?_
    rw [hlabel]
  rw [writeReport, writeReport, hround]

/-- The recoded records are split at the same places. -/
theorem splitInstances_recoded (f : CandleStick → CandleStick) (records : List CandleStick) :
    (splitInstances records = .error .indexOutOfBounds ∧
      splitInstances (records.map f) = .error .indexOutOfBounds) ∨
    ∃ testing training testing' training' : ArrayList CandleStick,
      splitInstances records = .ok (testing, training) ∧
      splitInstances (records.map f) = .ok (testing', training') ∧
      testing'.elements = testing.elements.map f ∧
      training'.elements = training.elements.map f ∧
      testing.elements ⊆ records ∧ training.elements ⊆ records ∧
      training.elements.length = 8000 := by
  by_cases hfew : records.length < TOTAL_INSTANCES
  · exact Or.inl ⟨splitInstances_error hfew, splitInstances_error (by rwa [List.length_map])⟩
  · have hmany : TOTAL_INSTANCES ≤ records.length := not_lt.mp hfew
    obtain ⟨testing, training, hsplit, htest, htrain⟩ := splitInstances_eq hmany
    obtain ⟨testing', training', hsplit', htest', htrain'⟩ :=
      splitInstances_eq (hmany.trans_eq (List.length_map f).symm)
    refine Or.inr ⟨testing, training, testing', training', hsplit, hsplit', ?_, ?_, ?_, ?_, ?_⟩
    · rw [htest, htest', List.map_take]
    · rw [htrain, htrain', List.map_drop, List.map_take]
    · exact htest ▸ List.take_subset _ _
    · exact htrain ▸ List.Subset.trans (List.drop_subset _ _) (List.take_subset _ _)
    · rw [TOTAL_INSTANCES] at hmany
      rw [htrain, List.length_drop, List.length_take]
      omega

/-- The candle with another year in its time. -/
def later (cs : CandleStick) : CandleStick := { cs with time := lit "9" ++ cs.time }

theorem recodes_later (l : List CandleStick) : Recodes later l := by
  refine ⟨fun a _ b _ i => ?_, fun _ => rfl⟩
  have htime : compareTo (later a).time (later b).time < 0 ↔ compareTo a.time b.time < 0 := by
    rw [compareTo_neg_iff, compareTo_neg_iff]
    change (57 : JChar) :: a.time < 57 :: b.time ↔ a.time < b.time
    simp
  unfold CandleStick.compareWith
  split_ifs
  · exact htime
  · rfl
  · rfl
  · rfl
  · rfl

theorem writable_later {cs : CandleStick} (h : cs.Writable) : (later cs).Writable := by
  have hnine : IsField (lit "9") ∧ OneLine (lit "9") := by
    constructor <;> decide
  refine ⟨h.pair_field, h.pair_oneLine, ⟨List.cons_ne_nil _ _, fun hcomma => ?_⟩,
    hnine.2.append h.time_oneLine⟩
  exact (List.mem_append.mp hcomma).elim hnine.1.2 h.time_field.2

/-- The lines of a list of records. -/
def recordTexts (records : List CandleStick) : List JString :=
  records.map fun cs => cs.toString Jdk.sample

theorem mapM_recordTexts {records : List CandleStick}
    (hwritable : ∀ cs ∈ records, cs.Writable) :
    (recordTexts records).mapM (CandleStick.readRecord Jdk.sample) = .ok records := by
  have hread := mapM_map_eq fun cs hcs =>
    CandleStick.readRecord_toString Jdk.sample_lawful (hwritable cs hcs)
  rw [recordTexts, hread]
  exact (mapM_eq_ok fun cs _ => rfl).trans (congrArg Except.ok (List.map_id records))

/-- **The single-tree program.**  On a recoded file it reports the same, or fails
with the same exception. -/
theorem HW2.main_recoded (shuffle : Shuffle) (args : List JString) {lines lines' : List JString}
    (hread : (lines.take TOTAL_INSTANCES).mapM (CandleStick.readRecord jdk) = .ok records)
    (hread' : (lines'.take TOTAL_INSTANCES).mapM (CandleStick.readRecord jdk) =
      .ok (records.map f))
    (h : Recodes f records) :
    HW2.main D jdk shuffle args lines' = HW2.main D jdk shuffle args lines := by
  have hshuffled := h.of_perm (shuffle.apply_perm records)
  rw [HW2.main, HW2.main]
  refine bind_congr fun _ => bind_congr fun _ => ?_
  rw [hread, hread', ok_bind, ok_bind, Shuffle.apply_map]
  rcases splitInstances_recoded f (shuffle.apply records) with ⟨herror, herror'⟩ |
    ⟨testing, training, testing', training', hsplit, hsplit', htest, htrain, htests, htrains, -⟩
  · rw [herror, herror']
  · have hanswers : classifyTree (SingleTree.buildDTree training'.elements : DTNode D)
        testing'.elements = classifyTree (SingleTree.buildDTree training.elements : DTNode D)
          testing.elements := by
      rw [htest, htrain]
      exact classifyTree_recoded fun cs hcs =>
        findMatch_growTree_recoded hshuffled htrains (htests hcs)
    rw [hsplit, hsplit', ok_bind, ok_bind]
    simp only [hanswers]
    exact bind_congr fun labels => by rw [htest, writeReport_recoded h.label]

/-- The first 10000 records with their times in another year. -/
theorem HW2.main_recoded_later :
    HW2.main Exact Jdk.sample (fun _ => 1) [lit "in", lit "out"]
        (recordTexts ((GrowTreeMapper.firstRecords 10000).map later)) =
      HW2.main Exact Jdk.sample (fun _ => 1) [lit "in", lit "out"]
        (recordTexts (GrowTreeMapper.firstRecords 10000)) := by
  obtain ⟨hlength, -, hwritable, -⟩ := GrowTreeMapper.firstRecords_spec 10000
  have hread : ∀ records : List CandleStick, records.length = 10000 →
      (∀ cs ∈ records, cs.Writable) → ((recordTexts records).take TOTAL_INSTANCES).mapM
        (CandleStick.readRecord Jdk.sample) = .ok records := by
    intro records hrecords hall
    rw [List.take_of_length_le, mapM_recordTexts hall]
    rw [recordTexts, List.length_map, hrecords, TOTAL_INSTANCES]
  have hlater := hread _ ((List.length_map later).trans hlength) <|
    List.forall_mem_map.mpr fun cs hcs => writable_later (hwritable cs hcs)
  exact HW2.main_recoded _ _ (hread _ hlength hwritable) hlater (recodes_later _)

/-- **The forest program.**  So does the other program, for every number of trees. -/
theorem HW3.main_recoded_forest (shuffle shuffleFeatures : Nat → Shuffle)
    (order : IterationOrder) (args : List JString) {lines lines' : List JString}
    (hread : lines.mapM (CandleStick.readRecord jdk) = .ok records)
    (hread' : lines'.mapM (CandleStick.readRecord jdk) = .ok (records.map f))
    (h : Recodes f records) :
    HW3.main D jdk shuffle shuffleFeatures order args lines' =
      HW3.main D jdk shuffle shuffleFeatures order args lines := by
  have hshuffled := h.of_perm ((shuffle 0).apply_perm records)
  rw [HW3.main, HW3.main]
  refine bind_congr fun _ => bind_congr fun _ => ?_
  rw [hread, hread', ok_bind, ok_bind, Shuffle.apply_map]
  rcases splitInstances_recoded f ((shuffle 0).apply records) with ⟨herror, herror'⟩ |
    ⟨testing, training, testing', training', hsplit, hsplit', htest, htrain, htests, htrains,
      hlength⟩
  · rw [herror, herror']
  · have hlength' : training'.elements.length = 8000 := by rw [htrain, List.length_map, hlength]
    rw [hsplit, hsplit', ok_bind, ok_bind]
    refine bind_congr fun _ => bind_congr fun N => ?_
    rw [RandomForest.buildForest_eq _ _ N (by omega) (by omega),
      RandomForest.buildForest_eq _ _ N (by omega) (by omega), ok_bind, ok_bind]
    simp only [RandomForest.built, List.map_map, Function.comp_def, htest, htrain]
    rw [RandomForest.classify_recoded hshuffled htrains htests]
    exact bind_congr fun labels => by rw [writeReport_recoded h.label]

/-- A file of 10000 records with their times in another year. -/
theorem HW3.main_recoded_forest_later :
    HW3.main Exact Jdk.sample (fun _ _ => 1) (fun _ _ => 1) (fun _ _ => 1)
        [lit "in", lit "out", lit "3"]
        (recordTexts ((GrowTreeMapper.firstRecords 10000).map later)) =
      HW3.main Exact Jdk.sample (fun _ _ => 1) (fun _ _ => 1) (fun _ _ => 1)
        [lit "in", lit "out", lit "3"] (recordTexts (GrowTreeMapper.firstRecords 10000)) := by
  have hwritable := (GrowTreeMapper.firstRecords_spec 10000).2.2.1
  refine HW3.main_recoded_forest _ _ _ _ (mapM_recordTexts hwritable) (mapM_recordTexts ?_)
    (recodes_later _)
  exact List.forall_mem_map.mpr fun cs hcs => writable_later (hwritable cs hcs)

end Programs

end Forex
