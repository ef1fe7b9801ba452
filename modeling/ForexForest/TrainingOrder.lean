import ForexForest.LeafPurity

/-!
# The order of the training list

The drivers shuffle the training list before they train.  When the first feature
is the time and no two times are equal, the first sort of the first node undoes
the shuffle (`sortBy_time_eq`), and everything after it is the same run.  Only a
root that stops at once keeps the shuffled list, and such a list has one label.

The arithmetic may be any whose entropy is zero on lists of one class only.
-/

namespace Forex

open Java Arith

/-- What a tree decides by: its shape, the tests and thresholds of its inner
nodes, and the labels of its leaves. -/
inductive Outline where
  | null
  | leaf (label : Except Exception Int32)
  | inner (testCond : Int) (thresholdIns : Option CandleStick) (left right : Outline)

/-- The outline of a tree. -/
def DTNode.outline {D : Type} : DTNode D → Outline
  | .null => .null
  | .node instances _ .null .null _ _ => .leaf (firstLabel instances)
  | .node _ _ left right testCond thresholdIns =>
      .inner testCond thresholdIns left.outline right.outline

section Counting

variable {D : Type} [Arith D]

instance : RightCommutative LabelCounts.add where
  right_comm counts a b := by
    unfold LabelCounts.add
    split_ifs
    all_goals rfl

/-- The entropy is a matter of the label counts. -/
theorem calcEntropy_perm {l l' : List CandleStick} (h : l.Perm l') :
    (calcEntropy l : D) = calcEntropy l' := by
  simp only [calcEntropy, h.length_eq, h.foldl_eq]

end Counting

section Shuffling

variable {D : Type} [Arith D] {entropyOf : List CandleStick → D} {stopsAtOne : Bool}
  {featureIdx : List Int} {instances instances' : List CandleStick}

/-- Without equal times the sort by time forgets the order of the list. -/
theorem sortBy_time_eq (hperm : instances.Perm instances')
    (htimes : (instances.map CandleStick.time).Nodup) :
    sortBy 0 instances = sortBy 0 instances' := by
  rw [sortBy_eq_sort, sortBy_eq_sort]
  have hsorts := (Comparator.sort_perm (CandleStick.featureComparator 0) instances).trans
    (hperm.trans (Comparator.sort_perm (CandleStick.featureComparator 0) instances').symm)
  apply hsorts.eq_of_pairwise _ (Comparator.sort_pairwise _ _) (Comparator.sort_pairwise _ _)
  intro a b ha hb hab hba
  have hmem : ∀ x ∈ (CandleStick.featureComparator 0).sort instances, x ∈ instances :=
    fun x hx => (Comparator.sort_perm _ _).mem_iff.mp hx
  have htie : a.compareWith b 0 = 0 := by
    have hswap := (CandleStick.featureComparator 0).le_iff_not_lt.mp hba
    exact le_antisymm hab (not_lt.mp hswap)
  have htime : a.time = b.time := compareTo_eq_zero_iff.mp htie
  exact List.inj_on_of_nodup_map htimes (hmem a ha) (hmem b (hsorts.mem_iff.mpr hb)) htime

/-- So does the whole search, when time is its first feature. -/
theorem search_eq_of_perm (hperm : instances.Perm instances')
    (htimes : (instances.map CandleStick.time).Nodup) (entropy : D) :
    search entropyOf entropy (0 :: featureIdx) instances =
      search entropyOf entropy (0 :: featureIdx) instances' := by
  simp only [search, List.foldl_cons, tryFeature, sortBy_time_eq hperm htimes]

/-- A list that does not stop at once grows one tree in every order. -/
theorem growTree_eq_of_perm (hentropy : entropyOf instances = entropyOf instances')
    (hperm : instances.Perm instances') (htimes : (instances.map CandleStick.time).Nodup)
    (hstop : ¬ StopsHere entropyOf stopsAtOne instances) :
    growTree entropyOf stopsAtOne (0 :: featureIdx) instances =
      growTree entropyOf stopsAtOne (0 :: featureIdx) instances' := by
  have hstop' : ¬ StopsHere entropyOf stopsAtOne instances' := by
    rwa [StopsHere, ← hentropy, ← hperm.length_eq]
  rw [growTree_of_continues hstop, growTree_of_continues hstop', ← hentropy]
  simp only [search_eq_of_perm hperm htimes]

/-- Two orders of one list that stops at once begin with one label. -/
theorem firstLabel_of_stopsHere (hpure : PureEntropy D) (hperm : instances'.Perm instances)
    (hlabels : ∀ cs ∈ instances, IsLabel cs.label)
    (hstop : StopsHere (calcEntropy : List CandleStick → D) stopsAtOne instances) :
    firstLabel instances' = firstLabel instances := by
  apply firstLabel_eq hperm
  intro a ha b hb
  exact label_eq_of_classOf (hlabels a ha) (hlabels b hb)
    (hstop.uniform hpure (List.ne_nil_of_mem ha) a ha b hb)

/-- The two orders of a list grow two leaves of one label, or one tree. -/
theorem growTree_perm_cases (hpure : PureEntropy D) (stopsAtOne : Bool) (featureIdx : List Int)
    (hperm : instances'.Perm instances) (htimes : (instances.map CandleStick.time).Nodup)
    (hlabels : ∀ cs ∈ instances, IsLabel cs.label) :
    (∃ entropy entropy' : D, firstLabel instances' = firstLabel instances ∧
      growTree calcEntropy stopsAtOne (0 :: featureIdx) instances = leafNode instances entropy ∧
      growTree calcEntropy stopsAtOne (0 :: featureIdx) instances' =
        leafNode instances' entropy') ∨
    (growTree calcEntropy stopsAtOne (0 :: featureIdx) instances' : DTNode D) =
      growTree calcEntropy stopsAtOne (0 :: featureIdx) instances := by
  have hentropy : (calcEntropy instances : D) = calcEntropy instances' :=
    calcEntropy_perm hperm.symm
  by_cases hstop : StopsHere (calcEntropy : List CandleStick → D) stopsAtOne instances
  · have hstop' : StopsHere (calcEntropy : List CandleStick → D) stopsAtOne instances' := by
      rwa [StopsHere, ← hentropy, hperm.length_eq]
    exact Or.inl ⟨_, _, firstLabel_of_stopsHere hpure hperm hlabels hstop,
      growTree_of_stopsHere hstop, growTree_of_stopsHere hstop'⟩
  · exact Or.inr (growTree_eq_of_perm hentropy hperm.symm htimes hstop).symm

/-- Without equal times and with time as the first feature a tree answers alike
for every order of its list. -/
theorem findMatch_growTree_perm (hpure : PureEntropy D) (stopsAtOne : Bool)
    (featureIdx : List Int) (hperm : instances'.Perm instances)
    (htimes : (instances.map CandleStick.time).Nodup)
    (hlabels : ∀ cs ∈ instances, IsLabel cs.label) :
    findMatch (growTree calcEntropy stopsAtOne (0 :: featureIdx) instances' : DTNode D) =
      findMatch (growTree calcEntropy stopsAtOne (0 :: featureIdx) instances : DTNode D) := by
  rcases growTree_perm_cases hpure stopsAtOne featureIdx hperm htimes hlabels with
    ⟨_, _, hlabel, hroot, hroot'⟩ | hsame
  · funext cs
    rw [hroot, hroot', findMatch_leafNode, findMatch_leafNode, hlabel]
  · rw [hsame]

end Shuffling

/-- **The shuffle does not matter.**  Trained on a list without equal times, with
time as the first feature, a tree has the same shape, tests, thresholds and leaf
labels for every order of the list, and classifies alike. -/
theorem training_ignores_order {D : Type} [Arith D] (hpure : PureEntropy D)
    (stopsAtOne : Bool) (featureIdx : List Int) {allTrainingInstances shuffled : List CandleStick}
    (hperm : shuffled.Perm allTrainingInstances)
    (htimes : (allTrainingInstances.map CandleStick.time).Nodup)
    (hlabels : ∀ cs ∈ allTrainingInstances, IsLabel cs.label) :
    let root : DTNode D :=
      growTree calcEntropy stopsAtOne (0 :: featureIdx) allTrainingInstances
    let root' : DTNode D := growTree calcEntropy stopsAtOne (0 :: featureIdx) shuffled
    root'.outline = root.outline ∧
      ∀ testingInstances, classifyTree root' testingInstances =
        classifyTree root testingInstances := by
  intro root root'
  constructor
  · rcases growTree_perm_cases hpure stopsAtOne featureIdx hperm htimes hlabels with
      ⟨_, _, hlabel, hroot, hroot'⟩ | hsame
    · change (growTree _ _ _ _).outline = (growTree _ _ _ _).outline
      rw [hroot, hroot']
      exact congrArg Outline.leaf hlabel
    · exact congrArg DTNode.outline hsame
  · intro testingInstances
    rw [classifyTree, classifyTree,
      findMatch_growTree_perm hpure stopsAtOne featureIdx hperm htimes hlabels]

/-- A rising candle, one minute later. -/
def laterCandle : CandleStick := { risingCandle with time := lit "20150803 16:36" }

theorem training_ignores_order_pair :
    (growTree calcEntropy false [0, 1] [laterCandle, fallingCandle] : DTNode Exact).outline =
      (growTree calcEntropy false [0, 1] [fallingCandle, laterCandle] : DTNode Exact).outline := by
  have htimes : ([fallingCandle, laterCandle].map CandleStick.time).Nodup := by decide
  exact (training_ignores_order Exact.pureEntropy false [1]
    (List.Perm.swap fallingCandle laterCandle []) htimes
    (by simp [IsLabel, fallingCandle, laterCandle, risingCandle])).1

end Forex
