import ForexForest.FirstMax
import ForexForest.TreeShape

/-!
# What the split search selects

The two loops of `buildDTree` are one scan over the cuts.  Whenever a key says
what their comparisons decide (`Decides`), the variables they leave behind are
those of the winner of the scan (`search_eq_winner`).

A cut is known by two numbers: the position of the feature that the list was
sorted by last, and the index at which it is cut.  `candidates` lists these
pairs in lexicographic order (`cuts_eq_map`).

A list of one instance has no cut, so the later projects' second stopping test
changes nothing (`growTree_stops`) and the four learners build the same trees.
-/

namespace Forex

open Java Arith

section Scanning

variable {D K : Type} [Arith D] [LinearOrder K]

/-- The variables of the loops for an incumbent. -/
def recorded (entropyOf : List CandleStick → D) (entropy : D) (best : Option Cut) : Best D :=
  best.elim Best.start fun c => c.snapshot entropyOf entropy

/-- `clears` and `key` say what the comparisons of the loops decide on the given
cuts: with the initial gain, and with the gain of an incumbent. -/
structure Decides (entropyOf : List CandleStick → D) (entropy : D) (key : Cut → K)
    (clears : Cut → Prop) (cs : List Cut) : Prop where
  bar : ∀ c ∈ cs, gt (c.gain entropyOf entropy) minValue = true ↔ clears c
  beats : ∀ b ∈ cs, ∀ c ∈ cs, clears b →
    (gt (c.gain entropyOf entropy) (b.gain entropyOf entropy) = true ↔ key b < key c)
  rising : ∀ b c, clears b → key b ≤ key c → clears c

variable {entropyOf : List CandleStick → D} {entropy : D} {key : Cut → K} {clears : Cut → Prop}
  [DecidablePred clears]

/-- The loops carry the incumbent of the scan. -/
theorem Decides.foldl_consider {cs : List Cut} (h : Decides entropyOf entropy key clears cs)
    {l : List Cut} (hl : ∀ c ∈ l, c ∈ cs) :
    l.foldl (consider entropyOf entropy) Best.start =
      recorded entropyOf entropy (Scan.winner key clears l) := by
  induction l using List.reverseRecOn with
  | nil => rfl
  | append_singleton l c ih =>
      have hc : c ∈ cs := hl c (List.mem_append_right l List.mem_cons_self)
      have hinit := ih fun d hd => hl d (List.mem_append_left [c] hd)
      rw [List.foldl_append, hinit, List.foldl_cons, List.foldl_nil, Scan.winner_snoc, consider]
      cases hwinner : Scan.winner key clears l with
      | none =>
          have hbar := h.bar c hc
          change gt (c.gain entropyOf entropy) (recorded entropyOf entropy none).bestIG = true ↔ _
            at hbar
          rw [Scan.challenge]
          by_cases hclears : clears c
          · rw [if_pos (hbar.mpr hclears), if_pos hclears]
            rfl
          · rw [if_neg (mt hbar.mp hclears), if_neg hclears]
      | some b =>
          obtain ⟨hclears, hfirst⟩ := (Scan.winner_eq_some_iff h.rising).mp hwinner
          have hbeats := h.beats b (hl b (List.mem_append_left [c] hfirst.mem)) c hc hclears
          change
            gt (c.gain entropyOf entropy) (recorded entropyOf entropy (some b)).bestIG = true ↔ _
            at hbeats
          rw [Scan.challenge]
          by_cases hlt : key b < key c
          · rw [if_pos (hbeats.mpr hlt), if_pos hlt]
            rfl
          · rw [if_neg (mt hbeats.mp hlt), if_neg hlt]

/-- The loops find the winner among the cuts. -/
theorem search_eq_winner {featureIdx : List Int} {instances : List CandleStick}
    (h : Decides entropyOf entropy key clears (cuts featureIdx instances)) :
    (search entropyOf entropy featureIdx instances).2 =
      recorded entropyOf entropy (Scan.winner key clears (cuts featureIdx instances)) := by
  rw [search_snd]
  exact h.foldl_consider fun _ hc => hc

end Scanning

section Candidates

/-- The list after the sorts by the first `j` features. -/
def sortedUpTo (featureIdx : List Int) (instances : List CandleStick) (j : Nat) :
    List CandleStick :=
  (featureIdx.take j).foldl (fun l i => sortBy i l) instances

/-- The pairs of a feature position and an index, in the order of the loops. -/
def candidates (featureIdx : List Int) (instances : List CandleStick) : List (Nat × Nat) :=
  (List.range featureIdx.length).flatMap fun j =>
    (List.range' 1 (instances.length - 1)).map (Prod.mk j)

/-- The cut of a pair. -/
def cutAt (featureIdx : List Int) (instances : List CandleStick) (p : Nat × Nat) : Cut :=
  ⟨featureIdx.getD p.1 (-1), sortedUpTo featureIdx instances (p.1 + 1), p.2⟩

variable {featureIdx : List Int} {instances : List CandleStick}

/-- The list after some of the sorts is a permutation of the list before them. -/
theorem sortedUpTo_perm (j : Nat) : (sortedUpTo featureIdx instances j).Perm instances := by
  unfold sortedUpTo
  generalize featureIdx.take j = sorts
  induction sorts generalizing instances with
  | nil => exact List.Perm.refl _
  | cons i sorts ih => exact ih.trans (sortBy_perm i instances)

/-- The candidates are the pairs of a feature and an inner position. -/
theorem mem_candidates {p : Nat × Nat} :
    p ∈ candidates featureIdx instances ↔
      p.1 < featureIdx.length ∧ 1 ≤ p.2 ∧ p.2 < instances.length := by
  rw [candidates, List.mem_flatMap]
  constructor
  · rintro ⟨j, hj, hp⟩
    obtain ⟨idx, hidx, rfl⟩ := List.mem_map.mp hp
    rw [List.mem_range] at hj
    rw [List.mem_range'_1] at hidx
    exact ⟨hj, hidx.1, by omega⟩
  · rintro ⟨hj, hpos, hlt⟩
    refine ⟨p.1, List.mem_range.mpr hj, List.mem_map.mpr ⟨p.2, ?_, rfl⟩⟩
    rw [List.mem_range'_1]
    omega

/-- The order of the loops is the lexicographic one. -/
theorem candidates_pairwise :
    (candidates featureIdx instances).Pairwise (Prod.Lex (· < ·) (· < ·)) := by
  rw [candidates, List.pairwise_flatMap]
  refine ⟨fun j _ => ?_, ?_⟩
  · have hidx : (List.range' 1 (instances.length - 1)).Pairwise (· < ·) := List.pairwise_lt_range'
    exact List.pairwise_map.mpr (hidx.imp fun h => Prod.Lex.right j h)
  · refine List.pairwise_lt_range.imp fun {j k} hjk p hp q hq => ?_
    obtain ⟨idx, -, rfl⟩ := List.mem_map.mp hp
    obtain ⟨idx', -, rfl⟩ := List.mem_map.mp hq
    exact Prod.Lex.left idx idx' hjk

/-- The cuts that the loops try are those of the candidate pairs. -/
theorem cuts_eq_map (featureIdx : List Int) (instances : List CandleStick) :
    cuts featureIdx instances =
      (candidates featureIdx instances).map (cutAt featureIdx instances) := by
  induction featureIdx generalizing instances with
  | nil => rfl
  | cons i featureIdx ih =>
      have hlength : (sortBy i instances).length = instances.length :=
        (sortBy_perm i instances).length_eq
      rw [cuts, ih]
      simp only [candidates, List.length_cons, List.range_succ_eq_map, List.flatMap_cons,
        List.flatMap_map, List.map_append, List.map_flatMap, List.map_map, hlength]
      rfl

end Candidates

section Growing

variable {D : Type} [Arith D] {featureIdx : List Int} {instances : List CandleStick}

/-- The search leaves the list as the last sort has left it. -/
theorem search_fst_eq (entropyOf : List CandleStick → D) (entropy : D) (featureIdx : List Int)
    (instances : List CandleStick) :
    (search entropyOf entropy featureIdx instances).1 =
      sortedUpTo featureIdx instances featureIdx.length := by
  rw [search_fst, sortedUpTo, List.take_length]

/-- A node without a best feature stays a leaf, with its list sorted. -/
theorem growTree_of_exhausted {entropyOf : List CandleStick → D} {stopsAtOne : Bool}
    (hstop : ¬ StopsHere entropyOf stopsAtOne instances)
    (hattr : (search entropyOf (entropyOf instances) featureIdx instances).2.bestAttr = -1) :
    growTree entropyOf stopsAtOne featureIdx instances =
      leafNode (sortedUpTo featureIdx instances featureIdx.length) (entropyOf instances) := by
  rw [growTree_of_continues hstop, if_pos hattr, search_fst_eq]

/-- A node takes its test, its threshold and its children from the snapshot. -/
theorem growTree_of_snapshot {entropyOf : List CandleStick → D} {stopsAtOne : Bool} {c : Cut}
    (hstop : ¬ StopsHere entropyOf stopsAtOne instances) (hattr : c.attr ≠ -1)
    (hbest : (search entropyOf (entropyOf instances) featureIdx instances).2 =
      c.snapshot entropyOf (entropyOf instances)) :
    growTree entropyOf stopsAtOne featureIdx instances =
      .node (sortedUpTo featureIdx instances featureIdx.length) (entropyOf instances)
        (growTree entropyOf stopsAtOne featureIdx c.left)
        (growTree entropyOf stopsAtOne featureIdx c.right) c.attr c.instances[c.idx]? := by
  have hnone : ¬ (search entropyOf (entropyOf instances) featureIdx instances).2.bestAttr = -1 := by
    rw [hbest]
    exact hattr
  rw [growTree_of_continues hstop, if_neg hnone, search_fst_eq, hbest]
  rfl

end Growing

section Copies

variable {D : Type} [Arith D]

/-- A list of one instance has no cut to try. -/
theorem search_of_length_one (entropyOf : List CandleStick → D) (entropy : D)
    (featureIdx : List Int) {instances : List CandleStick} (hone : instances.length = 1) :
    search entropyOf entropy featureIdx instances = (instances, Best.start) := by
  have hcandidates : candidates featureIdx instances = [] := by
    apply List.eq_nil_iff_forall_not_mem.mpr
    intro p hp
    have := mem_candidates.mp hp
    omega
  apply Prod.ext
  · rw [search_fst_eq]
    obtain ⟨x, rfl⟩ := List.length_eq_one_iff.mp hone
    exact List.perm_singleton.mp (sortedUpTo_perm featureIdx.length)
  · rw [search_snd, cuts_eq_map, hcandidates]
    rfl

/-- The second stopping test changes nothing: a single instance is a leaf on
either exit. -/
theorem growTree_stops (entropyOf : List CandleStick → D) (featureIdx : List Int)
    (instances : List CandleStick) :
    growTree entropyOf true featureIdx instances =
      growTree entropyOf false featureIdx instances := by
  induction hn : instances.length using Nat.strong_induction_on generalizing instances with
  | _ n ih =>
      by_cases hzero : isZero (entropyOf instances) = true
      · rw [growTree_of_stopsHere (Or.inl hzero), growTree_of_stopsHere (Or.inl hzero)]
      have hstop : ¬ StopsHere entropyOf false instances := mt (stopsHere_false_iff _).mp hzero
      by_cases hone : instances.length = 1
      · -- only the later projects stop here, and the earlier ones find nothing to split
        have hsearch := search_of_length_one entropyOf (entropyOf instances) featureIdx hone
        rw [growTree_of_stopsHere (Or.inr ⟨rfl, hone⟩),
          growTree_of_exhausted hstop (by rw [hsearch]; rfl),
          ← search_fst_eq entropyOf (entropyOf instances), hsearch]
      · have hstop' : ¬ StopsHere entropyOf true instances := by
          rintro (h | ⟨-, h⟩)
          · exact hzero h
          · exact hone h
        by_cases hattr :
            (search entropyOf (entropyOf instances) featureIdx instances).2.bestAttr = -1
        · rw [growTree_of_exhausted hstop hattr, growTree_of_exhausted hstop' hattr]
        · rcases search_cases entropyOf (entropyOf instances) featureIdx instances with
            h | ⟨c, hc, h⟩
          · exact absurd (congrArg Best.bestAttr h) hattr
          · rw [h] at hattr
            rw [growTree_of_snapshot hstop hattr h, growTree_of_snapshot hstop' hattr h,
              ih c.left.length (hn ▸ cut_left_length_lt hc) c.left rfl,
              ih c.right.length (hn ▸ cut_right_length_lt hc) c.right rfl]

/-- **The four copies of the learner agree.**  On every list the forest, the
Cassandra and the map-reduce project build the same tree, which on the four
features in order is the tree of the single-tree project; so the trees classify
alike.  Where only the later projects stop, there is no split to cut off. -/
theorem learners_agree (featureIdx : List Int) (instances : List CandleStick) :
    (Cassandra.buildDTree featureIdx instances : DTNode D) =
        Forest.buildDTree featureIdx instances ∧
      (MapReduce.buildDTree featureIdx instances : DTNode D) =
        Forest.buildDTree featureIdx instances ∧
      (SingleTree.buildDTree instances : DTNode D) =
        Forest.buildDTree [0, 1, 2, 3] instances ∧
      (∀ testingInstances,
        classifyTree (Cassandra.buildDTree featureIdx instances : DTNode D) testingInstances =
            classifyTree (Forest.buildDTree featureIdx instances : DTNode D) testingInstances ∧
          classifyTree (MapReduce.buildDTree featureIdx instances : DTNode D) testingInstances =
            classifyTree (Forest.buildDTree featureIdx instances : DTNode D) testingInstances ∧
          classifyTree (SingleTree.buildDTree instances : DTNode D) testingInstances =
            classifyTree (Forest.buildDTree [0, 1, 2, 3] instances : DTNode D)
              testingInstances) ∧
      ∀ single : List CandleStick, single.length = 1 →
        (search calcEntropy (calcEntropy single : D) featureIdx single).2 = Best.start := by
  have hcassandra : (Cassandra.buildDTree featureIdx instances : DTNode D) =
      Forest.buildDTree featureIdx instances := growTree_stops calcEntropy featureIdx instances
  have hmapReduce : (MapReduce.buildDTree featureIdx instances : DTNode D) =
      Forest.buildDTree featureIdx instances := growTree_stops calcEntropy featureIdx instances
  have hsingle : (SingleTree.buildDTree instances : DTNode D) =
      Forest.buildDTree [0, 1, 2, 3] instances := rfl
  refine ⟨hcassandra, hmapReduce, hsingle, ?_, ?_⟩
  · intro testingInstances
    rw [hcassandra, hmapReduce, hsingle]
    exact ⟨rfl, rfl, rfl⟩
  · intro single hone
    rw [search_of_length_one _ _ _ hone]

end Copies

end Forex
