import ForexForest.RandomForest

/-!
# The order of the trees

The map of votes is a `HashMap`, so ties are resolved by its order of iteration.
On the labels `-1`, `0` and `1` two of the three buckets coincide: `0` and `-1`
share the first one, where they stand in the order of their first votes, and `1`
follows in the second (`entrySet_labels`).

The elected label is therefore a function of the counts, except when `0` and
`-1` tie for the maximum; then the earliest vote for either of them decides
(`elect_of_not_tied`, `elect_of_tied`).
-/

namespace Forex

open Java

/-- `0` and `-1` have equally many votes, and `1` has no more. -/
def Tied (votes : List Int32) : Prop :=
  votes.count 0 = votes.count (-1) ∧ votes.count 1 ≤ votes.count 0

instance (votes : List Int32) : Decidable (Tied votes) :=
  inferInstanceAs (Decidable (_ ∧ _))

/-- The first vote that is not for `1`. -/
def firstNotRise (votes : List Int32) : Option Int32 := votes.find? fun label => label ≠ 1

section Election

variable {votes : List Int32} (hlabels : ∀ label ∈ votes, IsLabel label)
include hlabels

/-- Only labels that were voted for are counted. -/
theorem isLabel_of_mem_tally {e : Int32 × Nat} (he : e ∈ tally votes) : IsLabel e.1 :=
  hlabels e.1 (List.count_pos_iff.mp (mem_tally.mp he).1)

/-- The iteration meets the entries of `0` and `-1` first, in order of insertion,
and then that of `1`. -/
theorem entrySet_labels :
    HashMap.entrySet (tally votes) =
      (tally votes).filter (fun e => e.1 ≠ 1) ++ (tally votes).filter (fun e => e.1 = 1) := by
  have hbucket : ∀ e ∈ tally votes,
      HashMap.bucketIndex e.1 = if e.1 = 1 then 1 else 0 := by
    intro e he
    rcases isLabel_of_mem_tally hlabels he with h | h | h
    all_goals
      rw [h]
      decide
  have hrange : List.range 16 = [0, 1] ++ List.range' 2 14 := by decide
  have hempty : (List.range' 2 14).flatMap (fun bucket =>
      (tally votes).filter fun e => HashMap.bucketIndex e.1 = bucket) = [] := by
    rw [List.flatMap_eq_nil_iff]
    intro bucket hrest
    rw [List.filter_eq_nil_iff]
    intro e he
    rw [List.mem_range'_1] at hrest
    rw [hbucket e he, decide_eq_true_eq]
    split_ifs
    · omega
    · omega
  rw [HashMap.entrySet, hrange, List.flatMap_append, hempty, List.append_nil]
  simp only [List.flatMap_cons, List.flatMap_nil, List.append_nil]
  congr 1
  · apply List.filter_congr
    intro e he
    rw [hbucket e he]
    by_cases h : e.1 = 1
    · simp [h]
    · simp [h]
  · apply List.filter_congr
    intro e he
    rw [hbucket e he]
    by_cases h : e.1 = 1
    · simp [h]
    · simp [h]

/-- The elected label: voted for, with the most votes, and `1` only if it beats
both other labels. -/
theorem elected_facts {label : Int32} (h : elect HashMap.entrySet votes = some label) :
    IsLabel label ∧ 0 < votes.count label ∧
      (∀ other, votes.count other ≤ votes.count label) ∧
      (label = 1 → ∀ other, other ≠ 1 → votes.count other < votes.count 1) := by
  obtain ⟨e, he, rfl⟩ := Option.map_eq_some_iff.mp h
  have hfirst := maxEntry_eq_some_iff.mp he
  have hmem : e ∈ tally votes := (HashMap.entrySet_perm _).mem_iff.mp hfirst.mem
  obtain ⟨hpos, hcount⟩ := mem_tally.mp hmem
  have hne : votes ≠ [] := List.ne_nil_of_mem (List.count_pos_iff.mp hpos)
  obtain ⟨best, hbest, -, hmost⟩ := elect_spec HashMap.entrySet_perm hne
  rw [h, Option.some_inj] at hbest
  refine ⟨isLabel_of_mem_tally hlabels hmem, hpos, hbest ▸ hmost, ?_⟩
  intro hone other hother
  by_cases hzero : votes.count other = 0
  · rw [hone] at hpos
    omega
  · rw [entrySet_labels hlabels] at hfirst
    have hnot : e ∉ (tally votes).filter fun e => e.1 ≠ 1 := by
      intro hin
      simpa [hone] using (List.mem_filter.mp hin).2
    have hin : (other, votes.count other) ∈ (tally votes).filter fun e => e.1 ≠ 1 :=
      List.mem_filter.mpr ⟨mem_tally.mpr ⟨Nat.pos_of_ne_zero hzero, rfl⟩, by simpa using hother⟩
    have hlt := hfirst.lt_of_notMem hnot hin
    rwa [hcount, hone] at hlt

/-- Without a tie the counts decide. -/
theorem elect_of_not_tied {votes' : List Int32} (hperm : votes.Perm votes')
    (htied : ¬ Tied votes) :
    elect HashMap.entrySet votes = elect HashMap.entrySet votes' := by
  have hlabels' : ∀ label ∈ votes', IsLabel label :=
    fun label h => hlabels label (hperm.mem_iff.mpr h)
  rcases eq_or_ne votes [] with rfl | hne
  · rw [hperm.nil_eq]
  · have hne' : votes' ≠ [] := fun hnil => hne (by rw [hnil] at hperm; exact hperm.eq_nil)
    obtain ⟨label, hlabel, -⟩ := elect_spec HashMap.entrySet_perm hne
    obtain ⟨label', hlabel', -⟩ := elect_spec HashMap.entrySet_perm hne'
    obtain ⟨his, -, hmost, hrise⟩ := elected_facts hlabels hlabel
    obtain ⟨his', -, hmost', hrise'⟩ := elected_facts hlabels' hlabel'
    simp only [← hperm.count_eq] at hmost' hrise'
    have h1 := hmost label'
    have h2 := hmost' label
    rw [hlabel, hlabel', Option.some_inj]
    by_contra hdiff
    -- two different elected labels have equally many votes; neither can be `1`
    have hl : label ≠ 1 := fun h => by
      have := hrise h label' fun h' => hdiff (h.trans h'.symm)
      rw [h] at h2
      omega
    have hl' : label' ≠ 1 := fun h => by
      have := hrise' h label fun h' => hdiff (h'.trans h.symm)
      rw [h] at h1
      omega
    have hone := hmost 1
    unfold Tied at htied
    rcases his with rfl | rfl | rfl
    · rcases his' with rfl | rfl | rfl
      · exact hdiff rfl
      · exact htied ⟨by omega, by omega⟩
      · exact hl' rfl
    · rcases his' with rfl | rfl | rfl
      · exact htied ⟨by omega, by omega⟩
      · exact hdiff rfl
      · exact hl' rfl
    · exact hl rfl

/-- In a tie of `0` and `-1` the earliest vote for either of them decides. -/
theorem elect_of_tied (hne : votes ≠ []) (htied : Tied votes) :
    elect HashMap.entrySet votes = firstNotRise votes := by
  obtain ⟨label, hlabel, -⟩ := elect_spec HashMap.entrySet_perm hne
  obtain ⟨his, hpos, hmost, hrise⟩ := elected_facts hlabels hlabel
  have hnotRise : label ≠ 1 := by
    intro h
    have := hrise h 0 (by decide)
    have := htied.2
    omega
  have hcount : ∀ other, other ≠ 1 → IsLabel other → votes.count other = votes.count label := by
    intro other hother hisOther
    have htie := htied.1
    rcases his with rfl | rfl | rfl
    all_goals rcases hisOther with rfl | rfl | rfl
    all_goals first | rfl | exact htie | exact htie.symm | exact absurd rfl hother |
      exact absurd rfl hnotRise
  obtain ⟨e, he, rfl⟩ := Option.map_eq_some_iff.mp hlabel
  have hfirst := maxEntry_eq_some_iff.mp he
  have hmem : e ∈ tally votes := (HashMap.entrySet_perm _).mem_iff.mp hfirst.mem
  have hin : e ∈ (tally votes).filter fun e => e.1 ≠ 1 :=
    List.mem_filter.mpr ⟨hmem, by simpa using hnotRise⟩
  obtain ⟨head, rest, hhead⟩ := List.exists_cons_of_ne_nil (List.ne_nil_of_mem hin)
  have hheadMem : head ∈ (tally votes).filter fun e => e.1 ≠ 1 := by
    rw [hhead]
    exact List.mem_cons_self
  obtain ⟨hheadTally, hheadNe⟩ := List.mem_filter.mp hheadMem
  have hle : e.2 ≤ head.2 := by
    rw [(mem_tally.mp hmem).2, (mem_tally.mp hheadTally).2,
      hcount head.1 (by simpa using hheadNe) (isLabel_of_mem_tally hlabels hheadTally)]
  rw [entrySet_labels hlabels, hhead, List.cons_append] at hfirst
  rw [hlabel, hfirst.head_of_le hle, firstNotRise, ← keys_tally_find, Entries.keys,
    List.find?_map]
  have hfind : (tally votes).find? (fun e => e.1 ≠ 1) = some head := by
    rw [← List.head?_filter, hhead, List.head?_cons]
  rw [show ((fun label : Int32 => decide (label ≠ 1)) ∘ Prod.fst : Int32 × Nat → Bool) =
    fun e => decide (e.1 ≠ 1) from rfl, hfind, Option.map_some]

end Election

/-- **The order of the trees.**  For any two orders of the same prediction lists
`countVotes` returns the same label at every position where `0` and `-1` do not
tie with at least as many votes as `1`; where they do, it returns in each order
the first vote for either of them. -/
theorem countVotes_perm (N : Nat) (hN : 1 ≤ N) {rows rows' : List (List Int32)}
    (hsize : rows.length = N) (hperm : rows.Perm rows') {insCount : Nat}
    (hrect : ∀ row ∈ rows, row.length = insCount)
    (hlabels : ∀ row ∈ rows, ∀ label ∈ row, IsLabel label) :
    ∃ labels labels', countVotes HashMap.entrySet N rows = .ok labels ∧
      countVotes HashMap.entrySet N rows' = .ok labels' ∧
      labels.length = insCount ∧ labels'.length = insCount ∧
      ∀ k < insCount,
        if Tied (column rows k) then
          labels[k]? = firstNotRise (column rows k) ∧ labels'[k]? = firstNotRise (column rows' k)
        else labels[k]? = labels'[k]? := by
  have hne : rows ≠ [] := by
    rw [← List.length_pos_iff, hsize]
    exact hN
  have hne' : rows' ≠ [] := fun hnil => hne (by rw [hnil] at hperm; exact hperm.eq_nil)
  have hrect' : ∀ row ∈ rows', row.length = insCount :=
    fun row h => hrect row (hperm.mem_iff.mpr h)
  obtain ⟨labels, hok, hlength, helect⟩ := countVotes_spec HashMap.entrySet_perm hne hrect
  obtain ⟨labels', hok', hlength', helect'⟩ := countVotes_spec HashMap.entrySet_perm hne' hrect'
  rw [← hperm.length_eq, hsize] at hok'
  rw [hsize] at hok
  refine ⟨labels, labels', hok, hok', hlength, hlength', ?_⟩
  intro k hk
  have hcolumn : (column rows k).Perm (column rows' k) := hperm.filterMap _
  have hcolumnLabels : ∀ label ∈ column rows k, IsLabel label := by
    intro label hlabel
    obtain ⟨row, hrow, hget⟩ := List.mem_filterMap.mp hlabel
    exact hlabels row hrow label (List.mem_of_getElem? hget)
  have hcolumnNe : column rows k ≠ [] := by
    rw [← List.length_pos_iff, column_length hrect hk]
    exact List.length_pos_iff.mpr hne
  rw [helect k hk, helect' k hk]
  split_ifs with htied
  · refine ⟨elect_of_tied hcolumnLabels hcolumnNe htied, ?_⟩
    have htied' : Tied (column rows' k) := by
      unfold Tied at htied ⊢
      simpa only [hcolumn.count_eq] using htied
    refine elect_of_tied (fun label h => hcolumnLabels label (hcolumn.mem_iff.mpr h)) ?_ htied'
    intro hnil
    rw [hnil] at hcolumn
    exact hcolumnNe hcolumn.eq_nil
  · exact elect_of_not_tied hcolumnLabels hcolumn htied

theorem countVotes_perm_pair :
    ∃ labels labels', countVotes HashMap.entrySet 2 [[0], [1]] = .ok labels ∧
      countVotes HashMap.entrySet 2 [[1], [0]] = .ok labels' ∧ labels[0]? = labels'[0]? := by
  have hswap : [[(0 : Int32)], [1]].Perm [[1], [0]] := List.Perm.swap _ _ _
  have hrect : ∀ row ∈ [[(0 : Int32)], [1]], row.length = 1 := by simp
  obtain ⟨labels, labels', hok, hok', -, -, hat⟩ :=
    countVotes_perm 2 (by decide) rfl hswap hrect (by simp [IsLabel])
  have hnot : ¬ Tied (column [[0], [1]] 0) := by decide
  have hsame := hat 0 Nat.one_pos
  rw [if_neg hnot] at hsame
  exact ⟨labels, labels', hok, hok', hsame⟩

/-- One vote for `0` and one for `-1`: the first tree decides. -/
theorem first_tree_decides :
    [[(0 : Int32)], [-1]].Perm [[-1], [0]] ∧
      countVotes HashMap.entrySet 2 [[0], [-1]] = .ok [0] ∧
      countVotes HashMap.entrySet 2 [[-1], [0]] = .ok [-1] :=
  ⟨List.Perm.swap _ _ _, by decide, by decide⟩

end Forex
