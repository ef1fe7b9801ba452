import ForexForest.TreeOrder

/-!
# Does a tree classify its own training list?

The learner cuts a sorted list at a position; the classifier compares a value
with the first instance behind the cut.  The two agree at a node exactly when
the cut falls between two different values of its feature
(`routes_iff_betweenValues`): an instance on the left whose value ties with the
threshold is sent to the right.

`CutsBetweenValues` says this of the whole recursion, in terms of the training
list alone: at every mixed list the first cut of maximal gain gains and does not
divide a run of ties.  `Grown.trainedRight_iff` is the induction that makes it
the exact condition.
-/

namespace Forex

open Java Arith

/-- Every instance is routed into the child that holds it. -/
def DTNode.RoutesHome {D : Type} : DTNode D → Prop
  | .null => True
  | .node _ _ left right testCond thresholdIns =>
      (∀ cs ∈ left.instances, inLeftBranch testCond thresholdIns cs = .ok true) ∧
      (∀ cs ∈ right.instances, inLeftBranch testCond thresholdIns cs = .ok false) ∧
      left.RoutesHome ∧ right.RoutesHome

/-- No value of the feature lies on both sides of the cut. -/
def Cut.BetweenValues (c : Cut) : Prop :=
  ∀ a ∈ c.left, ∀ b ∈ c.right, a.compareWith b c.attr ≠ 0

/-- Along the whole recursion, the first cut of maximal gain of a mixed list
gains, and falls between two values of its feature. -/
inductive CutsBetweenValues (featureIdx : List Int) : List CandleStick → Prop
  | oneLabel {instances : List CandleStick}
      (h : ∀ a ∈ instances, ∀ b ∈ instances, a.label = b.label) :
      CutsBetweenValues featureIdx instances
  | split {instances : List CandleStick} {c : Cut}
      (hfirst : Scan.IsFirstMax Cut.realGain (cuts featureIdx instances) c) (hgains : c.Gains)
      (hbetween : c.BetweenValues) (hleft : CutsBetweenValues featureIdx c.left)
      (hright : CutsBetweenValues featureIdx c.right) :
      CutsBetweenValues featureIdx instances

section Routing

variable {featureIdx : List Int} {instances : List CandleStick} {c : Cut}

/-- The instances in front of a cut all compare below the threshold exactly when
the cut falls between two values. -/
theorem routes_iff_betweenValues (hc : c ∈ cuts featureIdx instances) {threshold : CandleStick}
    {rest : List CandleStick} (hright : c.right = threshold :: rest) :
    (∀ a ∈ c.left, a.compareWith threshold c.attr < 0) ↔ c.BetweenValues := by
  obtain ⟨-, -, hsorted, -, -⟩ := mem_cuts hc
  have hthreshold : threshold ∈ c.right := by
    rw [hright]
    exact List.mem_cons_self
  constructor
  · intro hbelow a ha b hb hzero
    have hba : (CandleStick.featureComparator c.attr).le b a := by
      apply (CandleStick.featureComparator c.attr).le_iff_not_lt.mpr
      change ¬ a.compareWith b c.attr < 0
      rw [hzero]
      exact lt_irrefl 0
    have htb : (CandleStick.featureComparator c.attr).le threshold b :=
      (CandleStick.featureComparator c.attr).le_iff_not_lt.mpr (right_not_below hc hright b hb)
    have hta := (CandleStick.featureComparator c.attr).trans _ _ _ htb hba
    exact (CandleStick.featureComparator c.attr).le_iff_not_lt.mp hta (hbelow a ha)
  · intro hbetween a ha
    have hle : a.compareWith threshold c.attr ≤ 0 :=
      (CandleStick.featureComparator c.attr).take_le_drop hsorted ha hthreshold
    exact lt_of_le_of_ne hle (hbetween a ha threshold hthreshold)

/-- A cut is known by what the loops record of it. -/
theorem snapshot_inj {d : Cut} (hc : c ∈ cuts featureIdx instances)
    (hd : d ∈ cuts featureIdx instances)
    (h : c.snapshot calcEntropy (calcEntropy instances : Exact) =
      d.snapshot calcEntropy (calcEntropy instances)) : c = d := by
  have hattr : c.attr = d.attr := congrArg Best.bestAttr h
  have hleft : c.left = d.left := congrArg Best.leftInstances h
  have hright : c.right = d.right := congrArg Best.rightInstances h
  have hinstances : c.instances = d.instances := by
    rw [← c.left_append_right, ← d.left_append_right, hleft, hright]
  have hidx : c.idx = d.idx := by
    rw [← Cut.left_length (mem_cuts hc).2.2.2.2, ← Cut.left_length (mem_cuts hd).2.2.2.2, hleft]
  cases c
  cases d
  simp only at hattr hinstances hidx
  rw [hattr, hinstances, hidx]

/-- The cut that the loops record is the first of maximal gain, and gains. -/
theorem first_of_snapshot (hc : c ∈ cuts featureIdx instances) (hattr : c.attr ≠ -1)
    (hbest : (search calcEntropy (calcEntropy instances : Exact) featureIdx instances).2 =
      c.snapshot calcEntropy (calcEntropy instances)) :
    c.Gains ∧ Scan.IsFirstMax Cut.realGain (cuts featureIdx instances) c := by
  rw [search_eq] at hbest
  cases hwinner : Scan.winner Cut.realGain Cut.Gains (cuts featureIdx instances) with
  | none =>
      rw [hwinner] at hbest
      exact absurd (congrArg Best.bestAttr hbest).symm hattr
  | some best =>
      have hspec := (Scan.winner_eq_some_iff gains_of_le).mp hwinner
      rw [hwinner] at hbest
      rw [← snapshot_inj hspec.2.mem hc hbest]
      exact hspec

/-- At a mixed list the condition is about its first cut of maximal gain. -/
theorem cutsBetweenValues_iff {a b : CandleStick} (ha : a ∈ instances) (hb : b ∈ instances)
    (hab : a.label ≠ b.label) (hgains : c.Gains)
    (hfirst : Scan.IsFirstMax Cut.realGain (cuts featureIdx instances) c) :
    CutsBetweenValues featureIdx instances ↔
      c.BetweenValues ∧ CutsBetweenValues featureIdx c.left ∧
        CutsBetweenValues featureIdx c.right := by
  constructor
  · intro h
    cases h with
    | oneLabel h => exact absurd (h a ha b hb) hab
    | split hfirst' _ hbetween hleft hright =>
        rw [hfirst.unique hfirst']
        exact ⟨hbetween, hleft, hright⟩
  · rintro ⟨hbetween, hleft, hright⟩
    exact CutsBetweenValues.split hfirst hgains hbetween hleft hright

end Routing

section Training

variable {stopsAtOne : Bool} {featureIdx : List Int} {instances : List CandleStick}

/-- The tree answers every instance of the list with its own label, and routes
every instance into the child that holds it. -/
def TrainedRight (t : DTNode Exact) (instances : List CandleStick) : Prop :=
  (∀ cs ∈ instances, findMatch t cs = .ok cs.label) ∧ t.RoutesHome

/-- A leaf is trained right exactly when its instances have one label. -/
theorem trainedRight_leafNode {leaf : List CandleStick} (hperm : leaf.Perm instances)
    (entropy : Exact) :
    TrainedRight (leafNode leaf entropy) instances ↔
      ∀ a ∈ instances, ∀ b ∈ instances, a.label = b.label := by
  have hhome : (leafNode leaf entropy).RoutesHome := by
    simp [leafNode, DTNode.RoutesHome, DTNode.instances]
  simp only [TrainedRight, findMatch_leafNode, hhome, and_true]
  constructor
  · intro h a ha b hb
    exact Except.ok.inj ((h a ha).symm.trans (h b hb))
  · intro h cs hcs
    rw [firstLabel_eq hperm h]
    obtain ⟨x, rest, rfl⟩ := List.exists_cons_of_ne_nil (List.ne_nil_of_mem hcs)
    exact congrArg Except.ok (h x List.mem_cons_self cs hcs)

/-- At an inner node: the cut falls between two values and both sides are
trained right. -/
theorem trainedRight_inner {c : Cut} (hc : c ∈ cuts featureIdx instances)
    {entropy : Exact} (hentropy : ¬ isZero entropy = true) {left right : DTNode Exact}
    (hleft : left.instances.Perm c.left) (hright : right.instances.Perm c.right)
    (hnull : left ≠ .null) (sorted : List CandleStick) :
    TrainedRight (.node sorted entropy left right c.attr c.instances[c.idx]?) instances ↔
      c.BetweenValues ∧ TrainedRight left c.left ∧ TrainedRight right c.right := by
  obtain ⟨threshold, rest, hthreshold, hhead⟩ := Cut.threshold_eq_head hc
  have hbehind := right_not_below hc hhead
  have hbelow := routes_iff_betweenValues hc hhead
  have hmem : ∀ cs, cs ∈ instances ↔ cs ∈ c.left ∨ cs ∈ c.right := by
    intro cs
    rw [← List.mem_append, Cut.left_append_right]
    exact (mem_cuts hc).2.1.mem_iff.symm
  have hfind : ∀ cs, findMatch (.node sorted entropy left right c.attr (some threshold)) cs =
      if cs.compareWith threshold c.attr < 0 then findMatch left cs else findMatch right cs :=
    findMatch_inner hentropy hnull
  rw [hthreshold]
  constructor
  · rintro ⟨hright', hhomeLeft, -, hhl, hhr⟩
    have hbelow' : ∀ a ∈ c.left, a.compareWith threshold c.attr < 0 := by
      intro a ha
      have h := hhomeLeft a (hleft.mem_iff.mpr ha)
      rw [inLeftBranch, Except.ok.injEq, decide_eq_true_eq] at h
      exact h
    refine ⟨hbelow.mp hbelow', ⟨fun a ha => ?_, hhl⟩, ⟨fun b hb => ?_, hhr⟩⟩
    · rw [← hright' a ((hmem a).mpr (Or.inl ha)), hfind, if_pos (hbelow' a ha)]
    · rw [← hright' b ((hmem b).mpr (Or.inr hb)), hfind, if_neg (hbehind b hb)]
  · rintro ⟨hbetween, ⟨hl, hhl⟩, ⟨hr, hhr⟩⟩
    have hbelow' := hbelow.mpr hbetween
    refine ⟨fun cs hcs => ?_, fun a ha => ?_, fun b hb => ?_, hhl, hhr⟩
    · rw [hfind]
      rcases (hmem cs).mp hcs with hcs | hcs
      · rw [if_pos (hbelow' cs hcs), hl cs hcs]
      · rw [if_neg (hbehind cs hcs), hr cs hcs]
    · rw [inLeftBranch, Except.ok.injEq, decide_eq_true_eq]
      exact hbelow' a (hleft.mem_iff.mp ha)
    · rw [inLeftBranch, Except.ok.injEq, decide_eq_false_iff_not]
      exact hbehind b (hright.mem_iff.mp hb)

/-- **The exact condition**, by induction on the growing of the tree. -/
theorem Grown.trainedRight_iff {t : DTNode Exact}
    (h : Grown (calcEntropy : List CandleStick → Exact) stopsAtOne featureIdx instances t)
    (hne : instances ≠ []) (hlabels : ∀ cs ∈ instances, IsLabel cs.label)
    (hrange : ∀ i ∈ featureIdx, IsFeature i) :
    TrainedRight t instances ↔ CutsBetweenValues featureIdx instances := by
  induction h with
  | @pure instances hstop =>
      have hone : ∀ a ∈ instances, ∀ b ∈ instances, a.label = b.label := by
        intro a ha b hb
        exact label_eq_of_classOf (hlabels a ha) (hlabels b hb)
          (hstop.uniform Exact.pureEntropy hne a ha b hb)
      exact iff_of_true ((trainedRight_leafNode (List.Perm.refl _) _).mpr hone)
        (CutsBetweenValues.oneLabel hone)
  | @exhausted instances hstop hnone =>
      obtain ⟨a, ha, b, hb, hab⟩ := exists_mixed hne hstop
      have hlabel : a.label ≠ b.label := fun h => hab (by rw [classOf, classOf, h])
      refine iff_of_false ?_ ?_
      · intro htrained
        exact hlabel ((trainedRight_leafNode (search_perm _ _) _).mp htrained a ha b hb)
      · intro hcuts
        cases hcuts with
        | oneLabel hone => exact hlabel (hone a ha b hb)
        | @split _ c hfirst hgains =>
            have hattr : IsFeature c.attr := hrange c.attr (mem_cuts hfirst.mem).1
            rw [search_eq, (Scan.winner_eq_some_iff gains_of_le).mpr ⟨hgains, hfirst⟩] at hnone
            change c.attr = -1 at hnone
            unfold IsFeature at hattr
            omega
  | @split instances c left right hstop hc hattr hbest hleft hright ihleft ihright =>
      obtain ⟨a, ha, b, hb, hab⟩ := exists_mixed hne hstop
      have hlabel : a.label ≠ b.label := fun h => hab (by rw [classOf, classOf, h])
      obtain ⟨hgains, hfirst⟩ := first_of_snapshot hc hattr hbest
      have hsub : ∀ cs, cs ∈ c.left ∨ cs ∈ c.right → IsLabel cs.label := by
        intro cs hcs
        rw [← List.mem_append, Cut.left_append_right] at hcs
        exact hlabels cs ((mem_cuts hc).2.1.mem_iff.mp hcs)
      rw [trainedRight_inner hc (fun hz => hstop (Or.inl hz)) hleft.instances_perm
          hright.instances_perm hleft.wellSplit.ne_null,
        cutsBetweenValues_iff ha hb hlabel hgains hfirst,
        ihleft (Cut.left_ne_nil hc) (fun cs hcs => hsub cs (Or.inl hcs)),
        ihright (Cut.right_ne_nil hc) (fun cs hcs => hsub cs (Or.inr hcs))]

end Training

/-- **Training consistency.**  A tree answers its training list and routes it home
exactly when no chosen cut divides a run of ties. -/
theorem training_consistent_iff (stopsAtOne : Bool) (featureIdx : List Int)
    (allTrainingInstances : List CandleStick) (hne : allTrainingInstances ≠ [])
    (hlabels : ∀ cs ∈ allTrainingInstances, IsLabel cs.label)
    (hrange : ∀ i ∈ featureIdx, IsFeature i) :
    let root : DTNode Exact := growTree calcEntropy stopsAtOne featureIdx allTrainingInstances
    ((∀ cs ∈ allTrainingInstances, findMatch root cs = .ok cs.label) ∧ root.RoutesHome) ↔
      CutsBetweenValues featureIdx allTrainingInstances :=
  (grown_growTree calcEntropy stopsAtOne featureIdx allTrainingInstances).trainedRight_iff
    hne hlabels hrange

section NoTies

variable {featureIdx : List Int} {instances : List CandleStick}

/-- No two instances have one value of a used feature. -/
def NoTies (featureIdx : List Int) (instances : List CandleStick) : Prop :=
  ∀ i ∈ featureIdx, instances.Pairwise fun a b => a.compareWith b i ≠ 0

instance : Decidable (NoTies featureIdx instances) :=
  inferInstanceAs (Decidable (∀ i ∈ featureIdx, _))

/-- Ties are mutual. -/
theorem compareWith_ne_comm {a b : CandleStick} {i : Int} (h : a.compareWith b i ≠ 0) :
    b.compareWith a i ≠ 0 := by
  have hswap := (CandleStick.featureComparator i).swap a b
  have hswap' := (CandleStick.featureComparator i).swap b a
  simp only [CandleStick.featureComparator] at hswap hswap'
  omega

/-- Sorting makes no ties. -/
theorem NoTies.perm (h : NoTies featureIdx instances) {sorted : List CandleStick}
    (hperm : sorted.Perm instances) : NoTies featureIdx sorted := fun i hi =>
  (hperm.pairwise_iff compareWith_ne_comm).mpr (h i hi)

/-- A part of the list has no ties either. -/
theorem NoTies.sublist (h : NoTies featureIdx instances) {side : List CandleStick}
    (hside : side.Sublist instances) : NoTies featureIdx side := fun i hi => (h i hi).sublist hside

/-- Without ties every cut falls between two values. -/
theorem NoTies.betweenValues (h : NoTies featureIdx instances) {c : Cut}
    (hc : c ∈ cuts featureIdx instances) : c.BetweenValues := by
  obtain ⟨hattr, hperm, -, -, -⟩ := mem_cuts hc
  have hsorted := h.perm hperm c.attr hattr
  rw [← Cut.left_append_right, List.pairwise_append] at hsorted
  exact hsorted.2.2

/-- **A condition on the input alone.**  Without ties in the used features no
chosen cut can divide one: the tree is trained right, however the gains fall. -/
theorem cutsBetweenValues_of_noTies (hfeatures : featureIdx ≠ [])
    (hlen : instances.length ≤ maxListLength) (hlabels : ∀ cs ∈ instances, IsLabel cs.label)
    (hties : NoTies featureIdx instances) : CutsBetweenValues featureIdx instances := by
  induction hn : instances.length using Nat.strong_induction_on generalizing instances with
  | _ n ih =>
      by_cases hone : ∀ a ∈ instances, ∀ b ∈ instances, a.label = b.label
      · exact CutsBetweenValues.oneLabel hone
      · push Not at hone
        obtain ⟨a, ha, b, hb, hab⟩ := hone
        have hclasses : classOf a ≠ classOf b := fun h =>
          hab (label_eq_of_classOf (hlabels a ha) (hlabels b hb) h)
        obtain ⟨c, hgains, hfirst⟩ := exists_first_gaining_cut hfeatures hlen ha hb hclasses
        obtain ⟨-, hperm, -, -, -⟩ := mem_cuts hfirst.mem
        have hsorted := hties.perm hperm
        have hpart : ∀ {side : List CandleStick}, side.Sublist c.instances →
            side.length < instances.length → CutsBetweenValues featureIdx side := by
          intro side hside hshort
          refine ih side.length (hn ▸ hshort) (hshort.le.trans hlen) (fun cs hcs => ?_)
            (hsorted.sublist hside) rfl
          exact hlabels cs (hperm.mem_iff.mp (hside.subset hcs))
        exact CutsBetweenValues.split hfirst hgains (hties.betweenValues hfirst.mem)
          (hpart (List.take_sublist _ _) (cut_left_length_lt hfirst.mem))
          (hpart (List.drop_sublist _ _) (cut_right_length_lt hfirst.mem))

/-- So a list without ties in the used features is learnt by heart. -/
theorem trainedRight_of_noTies (stopsAtOne : Bool) (hne : instances ≠ [])
    (hlen : instances.length ≤ maxListLength) (hlabels : ∀ cs ∈ instances, IsLabel cs.label)
    (hfeatures : featureIdx ≠ []) (hrange : ∀ i ∈ featureIdx, IsFeature i)
    (hties : NoTies featureIdx instances) :
    TrainedRight (growTree calcEntropy stopsAtOne featureIdx instances : DTNode Exact)
      instances :=
  ((grown_growTree calcEntropy stopsAtOne featureIdx instances).trainedRight_iff hne hlabels
    hrange).mpr (cutsBetweenValues_of_noTies hfeatures hlen hlabels hties)

end NoTies

section Pair

/-- The two candles of one minute, told apart by their highs. -/
def candlePair : List CandleStick := [fallingCandle, risingCandle]

theorem candlePair_labels : ∀ cs ∈ candlePair, IsLabel cs.label := by
  simp [candlePair, IsLabel, fallingCandle, risingCandle]

/-- On the feature that separates them the tree is trained right. -/
theorem training_consistent_pair :
    (∀ cs ∈ candlePair, findMatch (growTree calcEntropy false [1] candlePair : DTNode Exact) cs =
      .ok cs.label) ∧ (growTree calcEntropy false [1] candlePair : DTNode Exact).RoutesHome := by
  have hcuts : cuts [1] candlePair = [⟨1, [risingCandle, fallingCandle], 1⟩] := by
    decide +kernel
  have hclasses : classOf fallingCandle ≠ classOf risingCandle := by decide
  obtain ⟨c, hc, hgains⟩ := exists_gaining_cut (List.cons_ne_nil (1 : Int) [])
    (by decide : candlePair.length ≤ maxListLength) List.mem_cons_self
    (List.mem_cons_of_mem _ List.mem_cons_self) hclasses
  refine (training_consistent_iff false [1] candlePair (List.cons_ne_nil _ _) candlePair_labels
    (by simp [IsFeature])).mpr ?_
  rw [hcuts, List.mem_singleton] at hc
  refine CutsBetweenValues.split (c := c) ⟨[], [], ?_, by simp, by simp⟩ hgains ?_ ?_ ?_
  · rw [hcuts, hc, List.nil_append]
  · subst hc
    intro a ha b hb
    rw [List.mem_singleton.mp ha, List.mem_singleton.mp hb]
    decide +kernel
  · subst hc
    exact CutsBetweenValues.oneLabel (by simp [Cut.left])
  · subst hc
    exact CutsBetweenValues.oneLabel (by simp [Cut.right])

/-- All cuts of a pair gain the same. -/
theorem pair_realGain {featureIdx : List Int} {x y : CandleStick} {c : Cut}
    (hc : c ∈ cuts featureIdx [x, y]) : c.realGain = Entropy.entropy classOf [x, y] := by
  obtain ⟨-, hperm, -, hpos, hlt⟩ := mem_cuts hc
  have hlength : c.instances.length = 2 := hperm.length_eq
  have hone : ∀ l : List CandleStick, l.length = 1 → Entropy.entropy classOf l = 0 := by
    intro l hl
    obtain ⟨z, rfl⟩ := List.length_eq_one_iff.mp hl
    exact Entropy.entropy_eq_zero_of_uniform classOf (by simp)
  have hleft : c.left.length = 1 := by
    rw [Cut.left_length hlt]
    omega
  have hright : c.right.length = 1 := by
    rw [Cut.right_length]
    omega
  rw [Cut.realGain, Entropy.gain, hone c.left hleft, hone c.right hright, Cut.left_append_right,
    mul_zero, mul_zero, sub_zero, sub_zero]
  exact Entropy.entropy_perm classOf hperm

/-- Sorted by time the pair is one run of ties, and the cut inside it comes
first. -/
theorem pair_first (featureIdx : List Int) :
    Scan.IsFirstMax Cut.realGain (cuts (0 :: featureIdx) candlePair) ⟨0, candlePair, 1⟩ := by
  have hsorted : sortBy 0 candlePair = candlePair := by decide +kernel
  have hcuts : cuts (0 :: featureIdx) candlePair =
      ⟨0, candlePair, 1⟩ :: cuts featureIdx candlePair := by
    rw [cuts, hsorted]
    rfl
  refine ⟨[], cuts featureIdx candlePair, hcuts, by simp, ?_⟩
  intro c hc
  have hfirst : (⟨0, candlePair, 1⟩ : Cut) ∈ cuts (0 :: featureIdx) candlePair := by
    rw [hcuts]
    exact List.mem_cons_self
  exact ((pair_realGain hc).trans (pair_realGain hfirst).symm).le

/-- A tree of one instance answers every candle with its label. -/
theorem Grown.findMatch_singleton {stopsAtOne : Bool} {featureIdx : List Int} {x : CandleStick}
    {t : DTNode Exact}
    (h : Grown (calcEntropy : List CandleStick → Exact) stopsAtOne featureIdx [x] t)
    (cs : CandleStick) : findMatch t cs = .ok x.label := by
  have hstops : StopsHere (calcEntropy : List CandleStick → Exact) stopsAtOne [x] :=
    Or.inl ((isZero_calcEntropy_iff (List.cons_ne_nil x [])).mpr (by simp))
  cases h with
  | pure => exact findMatch_leafNode _ _ _
  | exhausted hstop => exact absurd hstops hstop
  | split hstop => exact absurd hstops hstop

/-- The first candle of the pair ties with the threshold and is sent to the
second one. -/
theorem tie_goes_right (stopsAtOne : Bool) {featureIdx : List Int}
    (hrange : ∀ i ∈ featureIdx, IsFeature i) :
    findMatch (growTree calcEntropy stopsAtOne (0 :: featureIdx) candlePair : DTNode Exact)
      fallingCandle = .ok 1 := by
  have hclasses : classOf fallingCandle ≠ classOf risingCandle := by decide
  have hfalling : fallingCandle ∈ candlePair := List.mem_cons_self
  have hrising : risingCandle ∈ candlePair := List.mem_cons_of_mem _ List.mem_cons_self
  have hgrown := grown_growTree (calcEntropy : List CandleStick → Exact) stopsAtOne
    (0 :: featureIdx) candlePair
  generalize (growTree calcEntropy stopsAtOne (0 :: featureIdx) candlePair : DTNode Exact) = t
    at hgrown ⊢
  cases hgrown with
  | pure hstop =>
      exact absurd
        (hstop.uniform Exact.pureEntropy (List.cons_ne_nil _ _) _ hfalling _ hrising) hclasses
  | exhausted hstop hnone =>
      refine absurd hnone (bestAttr_ne (List.cons_ne_nil _ _) (by decide) (List.cons_ne_nil _ _)
        ?_ hstop)
      intro i hi
      rcases List.mem_cons.mp hi with rfl | hi
      · exact Or.inl rfl
      · exact hrange i hi
  | @split _ c left right hstop hc hattr hbest hleft hright =>
      obtain rfl := (pair_first featureIdx).unique (first_of_snapshot hc hattr hbest).2
      have hthreshold : candlePair[1]? = some risingCandle := rfl
      simp only
      rw [hthreshold, findMatch_inner (fun hz => hstop (Or.inl hz)) hleft.wellSplit.ne_null,
        if_neg (by decide)]
      exact hright.findMatch_singleton fallingCandle

/-- The pair is consistent in every project's features, yet the tree answers the
falling candle with the label of the rising one. -/
theorem tie_is_misclassified :
    (∀ a ∈ candlePair, ∀ b ∈ candlePair,
      (∀ i ∈ [(0 : Int), 1], a.compareWith b i = 0) → a.label = b.label) ∧
    (∀ cs ∈ candlePair, IsLabel cs.label) ∧
    ¬ (∀ cs ∈ candlePair,
      findMatch (Forest.buildDTree [0, 1] candlePair : DTNode Exact) cs = .ok cs.label) ∧
    ¬ (∀ cs ∈ candlePair,
      findMatch (SingleTree.buildDTree candlePair : DTNode Exact) cs = .ok cs.label) := by
  have hwrong : (Except.ok 1 : Except Exception Int32) ≠ .ok fallingCandle.label := by decide
  refine ⟨by decide +kernel, candlePair_labels, ?_, ?_⟩
  · intro h
    have hfalling := h fallingCandle List.mem_cons_self
    rw [Forest.buildDTree, tie_goes_right false (by simp [IsFeature])] at hfalling
    exact hwrong hfalling
  · intro h
    have hfalling := h fallingCandle List.mem_cons_self
    rw [SingleTree.buildDTree, tie_goes_right false (by simp [IsFeature])] at hfalling
    exact hwrong hfalling

end Pair

end Forex
