import ForexForest.RealGain

/-!
# Every leaf has one label

Over the reals the second exit of `buildDTree` is never taken: a list that does
not stop at once has two classes, so some cut gains, and the feature of that cut
is a real one.  Every leaf is therefore a list that stopped at once, that is, a
list of one class, and on the three labels a class is a label.
-/

namespace Forex

open Java Arith

/-- The labels that the data preparation writes. -/
def IsLabel (label : Int32) : Prop := label = -1 ∨ label = 0 ∨ label = 1

/-- The features that the learner knows: time, high, low, close. -/
def IsFeature (i : Int) : Prop := i = 0 ∨ i = 1 ∨ i = 2 ∨ i = 3

/-- On the three labels the class determines the label. -/
theorem label_eq_of_classOf {a b : CandleStick} (ha : IsLabel a.label) (hb : IsLabel b.label)
    (h : classOf a = classOf b) : a.label = b.label := by
  unfold classOf at h
  rcases ha with ha | ha | ha
  all_goals rcases hb with hb | hb | hb
  all_goals rw [ha, hb] at h ⊢
  all_goals first | rfl | exact absurd h (by decide)

/-- The lists on which `buildDTree` calls itself, from the training list on. -/
inductive Visited (stopsAtOne : Bool) (featureIdx : List Int)
    (allTrainingInstances : List CandleStick) : List CandleStick → Prop
  | root : Visited stopsAtOne featureIdx allTrainingInstances allTrainingInstances
  | left {instances : List CandleStick}
      (h : Visited stopsAtOne featureIdx allTrainingInstances instances)
      (hstop : ¬ StopsHere (calcEntropy : List CandleStick → Exact) stopsAtOne instances)
      (hattr : (search calcEntropy (calcEntropy instances : Exact) featureIdx
        instances).2.bestAttr ≠ -1) :
      Visited stopsAtOne featureIdx allTrainingInstances
        (search calcEntropy (calcEntropy instances : Exact) featureIdx instances).2.leftInstances
  | right {instances : List CandleStick}
      (h : Visited stopsAtOne featureIdx allTrainingInstances instances)
      (hstop : ¬ StopsHere (calcEntropy : List CandleStick → Exact) stopsAtOne instances)
      (hattr : (search calcEntropy (calcEntropy instances : Exact) featureIdx
        instances).2.bestAttr ≠ -1) :
      Visited stopsAtOne featureIdx allTrainingInstances
        (search calcEntropy (calcEntropy instances : Exact) featureIdx instances).2.rightInstances

/-- The arithmetic computes an entropy of zero on lists of one class only. -/
def PureEntropy (D : Type) [Arith D] : Prop :=
  ∀ l : List CandleStick, l ≠ [] → isZero (calcEntropy l : D) = true →
    ∀ a ∈ l, ∀ b ∈ l, classOf a = classOf b

/-- Real arithmetic is of this kind. -/
theorem Exact.pureEntropy : PureEntropy Exact :=
  fun _ hne hzero => (isZero_calcEntropy_iff hne).mp hzero

section Purity

variable {stopsAtOne : Bool} {featureIdx : List Int} {instances : List CandleStick}

/-- A list that stops at once has one class. -/
theorem StopsHere.uniform {D : Type} [Arith D] (hpure : PureEntropy D) (hne : instances ≠ [])
    (h : StopsHere (calcEntropy : List CandleStick → D) stopsAtOne instances) :
    ∀ a ∈ instances, ∀ b ∈ instances, classOf a = classOf b := by
  rcases h with hzero | ⟨-, hone⟩
  · exact hpure instances hne hzero
  · obtain ⟨x, rfl⟩ := List.length_eq_one_iff.mp hone
    intro a ha b hb
    rw [List.mem_singleton.mp ha, List.mem_singleton.mp hb]

/-- A list that does not stop at once has two classes. -/
theorem exists_mixed (hne : instances ≠ [])
    (h : ¬ StopsHere (calcEntropy : List CandleStick → Exact) stopsAtOne instances) :
    ∃ a ∈ instances, ∃ b ∈ instances, classOf a ≠ classOf b := by
  have hzero := mt (isZero_calcEntropy_iff hne).mpr fun hz => h (Or.inl hz)
  push Not at hzero
  exact hzero

/-- The second exit is not taken. -/
theorem bestAttr_ne (hne : instances ≠ []) (hlen : instances.length ≤ maxListLength)
    (hfeatures : featureIdx ≠ []) (hrange : ∀ i ∈ featureIdx, IsFeature i)
    (hstop : ¬ StopsHere (calcEntropy : List CandleStick → Exact) stopsAtOne instances) :
    (search calcEntropy (calcEntropy instances : Exact) featureIdx instances).2.bestAttr ≠ -1 := by
  obtain ⟨a, ha, b, hb, hab⟩ := exists_mixed hne hstop
  obtain ⟨c, hgains, hfirst⟩ := exists_first_gaining_cut hfeatures hlen ha hb hab
  have hattr : IsFeature c.attr := hrange c.attr (mem_cuts hfirst.mem).1
  rw [search_eq, (Scan.winner_eq_some_iff gains_of_le).mpr ⟨hgains, hfirst⟩]
  change c.attr ≠ -1
  unfold IsFeature at hattr
  omega

/-- What a chosen cut leaves to its sides: non-empty, no longer, no new
instances. -/
theorem search_sides (hattr : (search calcEntropy (calcEntropy instances : Exact) featureIdx
      instances).2.bestAttr ≠ -1) {side : List CandleStick}
    (hside : side = (search calcEntropy (calcEntropy instances : Exact) featureIdx
        instances).2.leftInstances ∨
      side = (search calcEntropy (calcEntropy instances : Exact) featureIdx
        instances).2.rightInstances) :
    side ≠ [] ∧ side.length ≤ instances.length := by
  rcases search_cases calcEntropy (calcEntropy instances : Exact) featureIdx instances with
    h | ⟨c, hc, h⟩
  · exact absurd (congrArg Best.bestAttr h) hattr
  · rw [h] at hside
    rcases hside with rfl | rfl
    · exact ⟨Cut.left_ne_nil hc, (cut_left_length_lt hc).le⟩
    · exact ⟨Cut.right_ne_nil hc, (cut_right_length_lt hc).le⟩

/-- The lists of the recursion are never empty and never longer than the training
list. -/
theorem Visited.bounds {allTrainingInstances : List CandleStick}
    (h : Visited stopsAtOne featureIdx allTrainingInstances instances)
    (hne : allTrainingInstances ≠ []) :
    instances ≠ [] ∧ instances.length ≤ allTrainingInstances.length := by
  induction h with
  | root => exact ⟨hne, le_rfl⟩
  | left _ _ hattr ih =>
      obtain ⟨hside, hlen⟩ := search_sides hattr (Or.inl rfl)
      exact ⟨hside, hlen.trans ih.2⟩
  | right _ _ hattr ih =>
      obtain ⟨hside, hlen⟩ := search_sides hattr (Or.inr rfl)
      exact ⟨hside, hlen.trans ih.2⟩

/-- The leaves of a grown tree have one class each. -/
theorem Grown.leaves_uniform {t : DTNode Exact}
    (h : Grown (calcEntropy : List CandleStick → Exact) stopsAtOne featureIdx instances t)
    (hne : instances ≠ []) (hlen : instances.length ≤ maxListLength)
    (hfeatures : featureIdx ≠ []) (hrange : ∀ i ∈ featureIdx, IsFeature i) :
    ∀ leaf ∈ t.leaves, leaf ≠ [] ∧ ∀ a ∈ leaf, ∀ b ∈ leaf, classOf a = classOf b := by
  induction h with
  | pure hstop =>
      intro leaf hleaf
      rw [List.mem_singleton.mp hleaf]
      exact ⟨hne, hstop.uniform Exact.pureEntropy hne⟩
  | exhausted hstop hnone =>
      exact absurd hnone (bestAttr_ne hne hlen hfeatures hrange hstop)
  | split _ hc _ _ hleft _ ihleft ihright =>
      intro leaf hleaf
      rw [DTNode.leaves_inner hleft.wellSplit.ne_null] at hleaf
      rcases List.mem_append.mp hleaf with hleaf | hleaf
      · exact ihleft (Cut.left_ne_nil hc) ((cut_left_length_lt hc).le.trans hlen) leaf hleaf
      · exact ihright (Cut.right_ne_nil hc) ((cut_right_length_lt hc).le.trans hlen) leaf hleaf

/-- A tree grown from a mixed list is split at least once. -/
theorem Grown.two_le_leaves {t : DTNode Exact}
    (h : Grown (calcEntropy : List CandleStick → Exact) stopsAtOne featureIdx instances t)
    (hlen : instances.length ≤ maxListLength) (hfeatures : featureIdx ≠ [])
    (hrange : ∀ i ∈ featureIdx, IsFeature i) {a b : CandleStick} (ha : a ∈ instances)
    (hb : b ∈ instances) (hab : classOf a ≠ classOf b) : 2 ≤ t.leaves.length := by
  have hne := List.ne_nil_of_mem ha
  cases h with
  | pure hstop => exact absurd (hstop.uniform Exact.pureEntropy hne a ha b hb) hab
  | exhausted hstop hnone => exact absurd hnone (bestAttr_ne hne hlen hfeatures hrange hstop)
  | split _ _ _ _ hleft hright =>
      have hleftLeaves := hleft.wellSplit.nodeCount_eq
      have hrightLeaves := hright.wellSplit.nodeCount_eq
      rw [DTNode.leaves_inner hleft.wellSplit.ne_null, List.length_append]
      omega

end Purity

/-- In a list of one label every order begins with that label. -/
theorem firstLabel_eq {l l' : List CandleStick} (hperm : l'.Perm l)
    (huniform : ∀ a ∈ l, ∀ b ∈ l, a.label = b.label) : firstLabel l' = firstLabel l := by
  cases l with
  | nil => rw [hperm.eq_nil]
  | cons x rest =>
      obtain ⟨y, rest', rfl⟩ : ∃ y rest', l' = y :: rest' := by
        apply List.exists_cons_of_ne_nil
        intro hnil
        rw [hnil] at hperm
        exact absurd hperm.nil_eq (List.cons_ne_nil x rest).symm
      have hy : y ∈ x :: rest := hperm.mem_iff.mp List.mem_cons_self
      exact congrArg Except.ok (huniform y hy x List.mem_cons_self)

/-- **Leaf purity.**  Every leaf holds instances of one label, the exit without a
best attribute is taken on no list that `buildDTree` visits, and the answer at a
leaf does not depend on the order of its instances. -/
theorem leaves_have_one_label (stopsAtOne : Bool) (featureIdx : List Int)
    (allTrainingInstances : List CandleStick) (hne : allTrainingInstances ≠ [])
    (hlen : allTrainingInstances.length ≤ maxListLength)
    (hlabels : ∀ cs ∈ allTrainingInstances, IsLabel cs.label)
    (hfeatures : featureIdx ≠ []) (hrange : ∀ i ∈ featureIdx, IsFeature i) :
    let root : DTNode Exact := growTree calcEntropy stopsAtOne featureIdx allTrainingInstances
    (∀ leaf ∈ root.leaves, leaf ≠ [] ∧ ∀ a ∈ leaf, ∀ b ∈ leaf, a.label = b.label) ∧
      (∀ instances, Visited stopsAtOne featureIdx allTrainingInstances instances →
        ¬ StopsHere (calcEntropy : List CandleStick → Exact) stopsAtOne instances →
        (search calcEntropy (calcEntropy instances : Exact) featureIdx
          instances).2.bestAttr ≠ -1) ∧
      ∀ leaf ∈ root.leaves, ∀ reordered, reordered.Perm leaf →
        ∀ (entropy : Exact) (cs : CandleStick),
          findMatch (leafNode reordered entropy) cs = findMatch (leafNode leaf entropy) cs := by
  intro root
  have hgrown := grown_growTree (calcEntropy : List CandleStick → Exact) stopsAtOne featureIdx
    allTrainingInstances
  have hmem : ∀ leaf ∈ root.leaves, ∀ a ∈ leaf, IsLabel a.label := by
    intro leaf hleaf a ha
    have hperm := hgrown.wellSplit.leaves_perm.trans hgrown.instances_perm
    exact hlabels a (hperm.mem_iff.mp (List.mem_flatten.mpr ⟨leaf, hleaf, ha⟩))
  have hpure : ∀ leaf ∈ root.leaves, leaf ≠ [] ∧ ∀ a ∈ leaf, ∀ b ∈ leaf, a.label = b.label := by
    intro leaf hleaf
    obtain ⟨hleafNe, huniform⟩ := hgrown.leaves_uniform hne hlen hfeatures hrange leaf hleaf
    refine ⟨hleafNe, fun a ha b hb => ?_⟩
    exact label_eq_of_classOf (hmem leaf hleaf a ha) (hmem leaf hleaf b hb) (huniform a ha b hb)
  refine ⟨hpure, ?_, ?_⟩
  · intro instances hvisited hstop
    obtain ⟨hvisitedNe, hvisitedLen⟩ := hvisited.bounds hne
    exact bestAttr_ne hvisitedNe (hvisitedLen.trans hlen) hfeatures hrange hstop
  · intro leaf hleaf reordered hperm entropy cs
    rw [findMatch_leafNode, findMatch_leafNode]
    exact firstLabel_eq hperm (hpure leaf hleaf).2

/-- Two candles of one minute that differ in the high and in the label. -/
def fallingCandle : CandleStick where
  currencyPair := lit "USD/JPY"
  time := lit "20150803 16:35"
  high := Double.two
  low := Double.one
  close := Double.oneAndHalf
  label := -1

def risingCandle : CandleStick where
  currencyPair := lit "USD/JPY"
  time := lit "20150803 16:35"
  high := Double.oneAndHalf
  low := Double.one
  close := Double.oneAndHalf
  label := 1

theorem leaves_have_one_label_sample :
    (∀ leaf ∈ (growTree calcEntropy false [0, 1] [fallingCandle, risingCandle] :
      DTNode Exact).leaves, leaf ≠ [] ∧ ∀ a ∈ leaf, ∀ b ∈ leaf, a.label = b.label) ∧
    (search calcEntropy (calcEntropy [fallingCandle, risingCandle] : Exact) [0, 1]
      [fallingCandle, risingCandle]).2.bestAttr ≠ -1 := by
  have hmixed : ¬ StopsHere (calcEntropy : List CandleStick → Exact) false
      [fallingCandle, risingCandle] := by
    intro hstop
    have hclass := hstop.uniform Exact.pureEntropy (List.cons_ne_nil _ _) fallingCandle
      List.mem_cons_self risingCandle (List.mem_cons_of_mem _ List.mem_cons_self)
    exact absurd hclass (by decide)
  have hlabels : ∀ cs ∈ [fallingCandle, risingCandle], IsLabel cs.label := by
    simp [IsLabel, fallingCandle, risingCandle]
  have hrange : ∀ i ∈ [(0 : Int), 1], IsFeature i := by simp [IsFeature]
  obtain ⟨hpure, hexit, -⟩ := leaves_have_one_label false [0, 1] [fallingCandle, risingCandle]
    (List.cons_ne_nil _ _) (by decide) hlabels (List.cons_ne_nil _ _) hrange
  exact ⟨hpure, hexit _ Visited.root hmixed⟩

end Forex
