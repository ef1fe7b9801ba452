import ForexForest.JavaText

/-!
# Java lists

`size()` is an `int`, so an `ArrayList` has fewer than `2 ^ 31` elements, and
`subList` checks its two `int` arguments against it.  A shuffle permutes the
positions of a list whatever stands there; `afterShuffles` follows a list
through the rounds of a loop that shuffles it in place.

* `subList_of_le` — the range checks passed;
* `concat_front`, `concat_back` — adding an element to one of the two parts of a
  list that is cut at a fixed position;
* `forall₂_of_mapM` — what a loop over a list did in each of its rounds;
* `foldlM_snoc` — one more round of a loop;
* `foldlM_follows`, `mapM_follows` — a loop that follows another one round by round;
* `Shuffle.apply_map` — shuffling commutes with `map`;
* `Shuffle.take_apply_perm_iff` — when a shuffle leaves the same elements in front;
* `afterShuffles_perm` — the rounds only permute the list.
-/

namespace Java

variable {α β : Type}

/-- An `ArrayList`. -/
structure ArrayList (α : Type) where
  elements : List α
  length_lt : elements.length < 2 ^ 31

/-- `size()`. -/
def ArrayList.size (this : ArrayList α) : Int32 := Int32.ofNat this.elements.length

/-- `list.subList(fromIndex, toIndex)`, with the range check of `ArrayList` and
`AbstractList`. -/
def subList (l : List α) (fromIndex toIndex : Int32) : Except Exception (List α) :=
  if fromIndex.toInt < 0 then .error .indexOutOfBounds
  else if (l.length : Int) < toIndex.toInt then .error .indexOutOfBounds
  else if toIndex.toInt < fromIndex.toInt then .error .illegalArgument
  else .ok ((l.take toIndex.toInt.toNat).drop fromIndex.toInt.toNat)

/-- With bounds in order and inside the list there is no exception, and the part
between them is viewed. -/
theorem subList_of_le {l : List α} {fromIndex toIndex : Int32} {a b : Nat}
    (hfrom : fromIndex.toInt = a) (hto : toIndex.toInt = b) (hab : a ≤ b) (hb : b ≤ l.length) :
    subList l fromIndex toIndex = .ok ((l.take b).drop a) := by
  rw [subList, hfrom, hto, if_neg (by omega), if_neg (by omega), if_neg (by omega),
    Int.toNat_natCast, Int.toNat_natCast]

/-- If `subList` returned, its upper bound lies inside the list. -/
theorem subList_eq_ok {l part : List α} {fromIndex toIndex : Int32}
    (h : subList l fromIndex toIndex = .ok part) :
    toIndex.toInt ≤ l.length ∧
      part = (l.take toIndex.toInt.toNat).drop fromIndex.toInt.toNat := by
  unfold subList at h
  split_ifs at h with hfrom hto horder
  exact ⟨not_lt.mp hto, (Except.ok.inj h).symm⟩

/-- A list shorter than the cut grows in front of it. -/
theorem concat_front {l : List α} {k : Nat} (h : l.length < k) (a : α) :
    (l ++ [a]).take k = l.take k ++ [a] ∧ (l ++ [a]).drop k = l.drop k := by
  have hall : (l ++ [a]).length ≤ k := by
    rw [List.length_append, List.length_singleton]
    exact h
  constructor
  · rw [List.take_of_length_le hall, List.take_of_length_le h.le]
  · rw [List.drop_of_length_le hall, List.drop_of_length_le h.le]

/-- A list that reaches the cut grows behind it. -/
theorem concat_back {l : List α} {k : Nat} (h : k ≤ l.length) (a : α) :
    (l ++ [a]).take k = l.take k ∧ (l ++ [a]).drop k = l.drop k ++ [a] :=
  ⟨List.take_append_of_le_length h, List.drop_append_of_le_length h⟩

/-- What is said of the pairs of two lists holds of each element of the second. -/
theorem exists_of_forall₂ {R : α → β → Prop} {l : List α} {results : List β}
    (h : List.Forall₂ R l results) {b : β} (hb : b ∈ results) : ∃ a ∈ l, R a b := by
  induction h with
  | nil => exact absurd hb List.not_mem_nil
  | @cons a c l results hR _ ih =>
      rcases List.mem_cons.mp hb with rfl | hb
      · exact ⟨a, List.mem_cons_self, hR⟩
      · obtain ⟨d, hd, hdb⟩ := ih hb
        exact ⟨d, List.mem_cons_of_mem a hd, hdb⟩

/-- Two lists whose pairs agree under two functions have equal images. -/
theorem map_eq_of_forall₂ {γ : Type} {f : α → γ} {g : β → γ} {l : List α} {results : List β}
    (h : List.Forall₂ (fun a b => f a = g b) l results) : l.map f = results.map g := by
  rw [← List.forall₂_eq_eq_eq, List.forall₂_map_left_iff, List.forall₂_map_right_iff]
  exact h

/-- A loop that returns normally does so in every round. -/
theorem forall₂_of_mapM {f : α → Except Exception β} {l : List α} {results : List β}
    (h : l.mapM f = .ok results) : List.Forall₂ (fun a b => f a = .ok b) l results := by
  induction l generalizing results with
  | nil =>
      rw [← Except.ok.inj h]
      exact List.Forall₂.nil
  | cons a l ih =>
      rw [List.mapM_cons] at h
      obtain ⟨b, hb, h⟩ := bind_eq_ok h
      obtain ⟨rest, hrest, h⟩ := bind_eq_ok h
      rw [← Except.ok.inj h]
      exact List.Forall₂.cons hb (ih hrest)

section Loops

variable {σ τ : Type}

/-- One more round of a loop that has returned so far. -/
theorem foldlM_snoc {f : σ → α → Except Exception σ} {l : List α} {st result : σ}
    (h : l.foldlM f st = .ok result) (a : α) : (l ++ [a]).foldlM f st = f result a := by
  rw [List.foldlM_append, h, ok_bind, List.foldlM_cons]
  exact bind_pure (f result a)

/-- A loop whose rounds follow those of another loop follows that loop. -/
theorem foldlM_follows {f : σ → α → Except Exception σ} {g : τ → α → Except Exception τ}
    {R : σ → τ → Prop}
    (hround : ∀ st other a next, R st other → g other a = .ok next →
      ∃ after, f st a = .ok after ∧ R after next)
    {l : List α} {st : σ} {other result : τ} (hst : R st other)
    (h : l.foldlM g other = .ok result) : ∃ after, l.foldlM f st = .ok after ∧ R after result := by
  induction l generalizing st other with
  | nil =>
      rw [← Except.ok.inj h]
      exact ⟨st, rfl, hst⟩
  | cons a l ih =>
      rw [List.foldlM_cons] at h
      obtain ⟨next, hnext, hrest⟩ := bind_eq_ok h
      obtain ⟨middle, hmiddle, hR⟩ := hround st other a next hst hnext
      obtain ⟨after, hafter, hlast⟩ := ih hR hrest
      refine ⟨after, ?_, hlast⟩
      rw [List.foldlM_cons, hmiddle, ok_bind, hafter]

/-- A loop that collects the results of rounds which follow those of another loop. -/
theorem mapM_follows {f : α → Except Exception β} {g : α → Except Exception τ} {R : β → τ → Prop}
    {l : List α} (hround : ∀ a ∈ l, ∀ c, g a = .ok c → ∃ b, f a = .ok b ∧ R b c)
    {results : List τ} (h : l.mapM g = .ok results) :
    ∃ others, l.mapM f = .ok others ∧ List.Forall₂ R others results := by
  induction l generalizing results with
  | nil =>
      rw [← Except.ok.inj h]
      exact ⟨[], rfl, List.Forall₂.nil⟩
  | cons a l ih =>
      rw [List.mapM_cons] at h
      obtain ⟨c, hc, h⟩ := bind_eq_ok h
      obtain ⟨rest, hrest, h⟩ := bind_eq_ok h
      obtain ⟨b, hb, hR⟩ := hround a List.mem_cons_self c hc
      obtain ⟨others, hothers, hall⟩ :=
        ih (fun d hd => hround d (List.mem_cons_of_mem a hd)) hrest
      refine ⟨b :: others, ?_, ?_⟩
      · rw [List.mapM_cons, hb, ok_bind, hothers]
        rfl
      · rw [← Except.ok.inj h]
        exact List.Forall₂.cons hR hall

end Loops

/-- One call of `Collections.shuffle`: for every length, a permutation of the
positions. -/
abbrev Shuffle := ∀ n, Equiv.Perm (Fin n)

namespace Shuffle

/-- The shuffled list. -/
def apply (shuffle : Shuffle) (l : List α) : List α :=
  List.ofFn fun k => l.get (shuffle l.length k)

/-- A shuffle keeps the length of the list. -/
@[simp] theorem length_apply (shuffle : Shuffle) (l : List α) :
    (shuffle.apply l).length = l.length := by
  rw [apply, List.length_ofFn]

/-- A shuffle only moves the elements. -/
theorem apply_perm (shuffle : Shuffle) (l : List α) : (shuffle.apply l).Perm l := by
  have hperm := Equiv.Perm.ofFn_comp_perm (shuffle l.length) l.get
  rwa [List.ofFn_get] at hperm

/-- The positions do not depend on the elements. -/
theorem apply_map (shuffle : Shuffle) (f : α → β) (l : List α) :
    shuffle.apply (l.map f) = (shuffle.apply l).map f := by
  have hposition : ∀ {n m : Nat} (h : n = m) (k : Fin n),
      (shuffle n k).val = (shuffle m (k.cast h)).val := by
    rintro n _ rfl k
    rfl
  have hlength : (l.map f).length = l.length := List.length_map f
  apply List.ext_getElem
  · simp
  · intro i hi hi'
    have hat := hposition hlength ⟨i, by simpa using hi⟩
    simp only [apply, List.getElem_ofFn, List.getElem_map, List.get_eq_getElem, hat]
    rfl

/-- The element at a position after the shuffle. -/
theorem get_apply (shuffle : Shuffle) (l : List α) {j : Nat} (hj : j < l.length) :
    (shuffle.apply l)[j]? = some (l.get (shuffle l.length ⟨j, hj⟩)) := by
  simp [apply, hj]

/-- Among `n` positions the shuffle permutes the first `k`. -/
def KeepsFront (shuffle : Shuffle) (n k : Nat) : Prop :=
  ∀ j : Fin n, j.val < k → (shuffle n j).val < k

instance (shuffle : Shuffle) (n k : Nat) : Decidable (shuffle.KeepsFront n k) := by
  unfold KeepsFront; infer_instance

/-- Of different elements, the same ones stand in front exactly when the front is
only permuted. -/
theorem take_apply_perm_iff (shuffle : Shuffle) {l : List α} (hdistinct : l.Nodup) (k : Nat) :
    ((shuffle.apply l).take k).Perm (l.take k) ↔ shuffle.KeepsFront l.length k := by
  have hfront : ∀ j : Fin l.length, l.get j ∈ l.take k ↔ j.val < k := by
    intro j
    rw [List.mem_take_iff_getElem]
    constructor
    · rintro ⟨i, hi, heq⟩
      have hij : i = j.val := hdistinct.getElem_inj_iff.mp heq
      omega
    · intro hj
      exact ⟨j, by omega, rfl⟩
  constructor
  · intro hperm j hj
    rw [← hfront, ← hperm.mem_iff]
    apply List.mem_of_getElem?
    rw [List.getElem?_take_of_lt hj]
    exact shuffle.get_apply l j.isLt
  · intro hkeeps
    have hshuffled : (shuffle.apply l).Nodup := (shuffle.apply_perm l).nodup_iff.mpr hdistinct
    have hsub : (shuffle.apply l).take k ⊆ l.take k := by
      intro x hx
      obtain ⟨j, hj⟩ := List.mem_iff_getElem?.mp hx
      rw [List.getElem?_take] at hj
      split_ifs at hj with hjk
      have hjl : j < l.length := by
        rw [← shuffle.length_apply l]
        exact (List.getElem?_eq_some_iff.mp hj).1
      rw [shuffle.get_apply l hjl] at hj
      rw [← Option.some.inj hj]
      exact (hfront _).mpr (hkeeps ⟨j, hjl⟩ hjk)
    have hnodup : ((shuffle.apply l).take k).Nodup := hshuffled.sublist (List.take_sublist k _)
    apply (hnodup.subperm hsub).perm_of_length_le
    rw [List.length_take, List.length_take, length_apply]

end Shuffle

/-- A list after the first shuffles of a loop that shuffles it in place. -/
def afterShuffles (shuffle : Nat → Shuffle) (l : List α) : Nat → List α
  | 0 => l
  | i + 1 => (shuffle i).apply (afterShuffles shuffle l i)

variable (shuffle : Nat → Shuffle)

/-- Any number of shuffles, one after the other, only move the elements. -/
theorem afterShuffles_perm (l : List α) (i : Nat) : (afterShuffles shuffle l i).Perm l := by
  induction i with
  | zero => exact List.Perm.refl l
  | succ i ih => exact ((shuffle i).apply_perm _).trans ih

@[simp] theorem length_afterShuffles (l : List α) (i : Nat) :
    (afterShuffles shuffle l i).length = l.length :=
  (afterShuffles_perm shuffle l i).length_eq

/-- Shuffling again and again commutes with a map, as one shuffle does. -/
theorem afterShuffles_map (f : α → β) (l : List α) (i : Nat) :
    afterShuffles shuffle (l.map f) i = (afterShuffles shuffle l i).map f := by
  induction i with
  | zero => rfl
  | succ i ih => rw [afterShuffles, ih, Shuffle.apply_map, afterShuffles]

end Java
