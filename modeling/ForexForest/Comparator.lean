import ForexForest.JavaText

/-!
# Comparators and the stable sort

A `Comparator` answers with the sign of an integer and carries the contract
that `List.sort` relies on: swapping the arguments swaps the sign, and the
answers are transitive.  Ties between different elements are allowed.

`List.sort` is stable, so the sorted list is determined by the comparator and
the order of the input: insertion sort computes it.

* `Comparator.sort_perm`, `Comparator.sort_pairwise` — the sort is a sorted
  permutation;
* `Comparator.take_le_drop` — a cut of a sorted list separates the values;
* `Comparator.sort_map` — a map that keeps the answers commutes with sorting.
-/

namespace Java

/-- A comparison function together with the contract of `Comparator.compare`. -/
structure Comparator (α : Type) where
  compare : α → α → Int
  swap : ∀ a b, compare a b < 0 ↔ 0 < compare b a
  trans : ∀ a b c, compare a b ≤ 0 → compare b c ≤ 0 → compare a c ≤ 0

namespace Comparator

variable {α β : Type}

/-- Comparison of a key. -/
def comap (c : Comparator β) (key : α → β) : Comparator α where
  compare a b := c.compare (key a) (key b)
  swap a b := c.swap (key a) (key b)
  trans x y z := c.trans (key x) (key y) (key z)

/-- `String.compareTo` as a comparator. -/
def string : Comparator JString where
  compare := compareTo
  swap _ _ := by rw [compareTo_neg_iff, compareTo_pos_iff]
  trans r s t hrs hst := by
    rw [← not_lt, compareTo_pos_iff, not_lt] at *
    exact le_trans hrs hst

variable (c : Comparator α)

/-- `a` may stand before `b` in a sorted list. -/
def le (a b : α) : Prop := c.compare a b ≤ 0

instance : DecidableRel c.le := fun a b => Int.decLe (c.compare a b) 0

/-- Of two elements one may stand before the other, or both: the sign cannot be
positive both ways round. -/
theorem le_total (a b : α) : c.le a b ∨ c.le b a := by
  have := c.swap b a
  simp only [le]
  omega

instance : Std.Total c.le := ⟨c.le_total⟩

instance : IsTrans α c.le := ⟨c.trans⟩

/-- One element may stand before another unless the other one must stand before it.
-/
theorem le_iff_not_lt {a b : α} : c.le a b ↔ ¬ c.compare b a < 0 := by
  have := c.swap b a
  simp only [le]
  omega

/-- `list.sort(c)`. -/
def sort (l : List α) : List α := l.insertionSort c.le

/-- Sorting neither loses nor adds elements. -/
theorem sort_perm (l : List α) : (c.sort l).Perm l :=
  List.perm_insertionSort c.le l

/-- Sorting leaves the list in order. -/
theorem sort_pairwise (l : List α) : (c.sort l).Pairwise c.le :=
  List.pairwise_insertionSort c.le l

/-- Every element before a cut of a sorted list may stand before every element
after it. -/
theorem take_le_drop {l : List α} (hsorted : l.Pairwise c.le) {cut : Nat}
    {a b : α} (ha : a ∈ l.take cut) (hb : b ∈ l.drop cut) : c.le a b := by
  rw [← List.take_append_drop cut l, List.pairwise_append] at hsorted
  exact hsorted.2.2 a ha b hb

/-- Sorting commutes with a map that keeps the comparator's answers. -/
theorem sort_map {d : Comparator β} {f : α → β}
    (hf : ∀ a b, d.compare (f a) (f b) = c.compare a b) (l : List α) :
    d.sort (l.map f) = (c.sort l).map f := by
  refine (List.map_insertionSort c.le d.le f l ?_).symm
  intro a _ b _
  simp [le, hf]

/-- The strict order is transitive, although the contract is stated for the weak
one. -/
theorem lt_trans {a b d : α} (hab : c.compare a b < 0) (hbd : c.compare b d < 0) :
    c.compare a d < 0 := by
  by_contra had
  have hda : c.le d a := c.le_iff_not_lt.mpr had
  have hle : c.le a b := hab.le
  exact c.le_iff_not_lt.mp (c.trans d a b hda hle) hbd

/-- No two elements are strictly before each other. -/
theorem lt_asymm {a b : α} (hab : c.compare a b < 0) : ¬ c.compare b a < 0 := by
  have := c.swap a b
  omega

end Comparator

section Prefix

variable {α : Type} {lt : α → α → Prop}

/-- The prefixes of two arrangements of one list, the first of them sorted, have
the same elements exactly when the second arrangement already has its smallest
elements in front. -/
theorem mem_take_sorted_iff (hasymm : ∀ a b, lt a b → ¬ lt b a) {sorted l : List α}
    (hsorted : sorted.Pairwise lt) (hperm : sorted.Perm l) (k : Nat) :
    (∀ x, x ∈ sorted.take k ↔ x ∈ l.take k) ↔ ∀ a ∈ l.take k, ∀ b ∈ l.drop k, lt a b := by
  have hnodup : sorted.Nodup := by
    apply hsorted.imp
    intro a b hab heq
    rw [heq] at hab
    exact hasymm b b hab hab
  have hnodup' : l.Nodup := hperm.nodup_iff.mp hnodup
  have htake : (sorted.take k).Nodup := hnodup.sublist (List.take_sublist k sorted)
  have htake' : (l.take k).Nodup := hnodup'.sublist (List.take_sublist k l)
  have hsplit := hsorted
  rw [← List.take_append_drop k sorted, List.pairwise_append] at hsplit
  constructor
  · intro hsame a ha b hb
    have hbl : b ∉ l.take k := by
      rw [← List.take_append_drop k l] at hnodup'
      exact fun h => List.disjoint_of_nodup_append hnodup' h hb
    have hbs : b ∈ sorted.drop k := by
      have hmem := hperm.mem_iff.mpr (List.mem_of_mem_drop hb)
      rw [← List.take_append_drop k sorted] at hmem
      exact (List.mem_append.mp hmem).resolve_left fun h => hbl ((hsame b).mp h)
    exact hsplit.2.2 a ((hsame a).mpr ha) b hbs
  · intro hfront
    have hsub : sorted.take k ⊆ l.take k := by
      intro x hx
      by_contra hxl
      have hxd : x ∈ l.drop k := by
        have hmem := hperm.mem_iff.mp (List.mem_of_mem_take hx)
        rw [← List.take_append_drop k l] at hmem
        exact (List.mem_append.mp hmem).resolve_left hxl
      -- then everything in front in `l` is in front in `sorted`, and so is `x`
      have hsub' : x :: l.take k ⊆ sorted.take k := by
        intro a ha
        rcases List.mem_cons.mp ha with rfl | ha
        · exact hx
        · have hmem := hperm.mem_iff.mpr (List.mem_of_mem_take ha)
          rw [← List.take_append_drop k sorted] at hmem
          refine (List.mem_append.mp hmem).resolve_right fun had => ?_
          exact hasymm x a (hsplit.2.2 x hx a had) (hfront a ha x hxd)
      have hlen := List.Nodup.length_le_of_subset (List.nodup_cons.mpr ⟨hxl, htake'⟩) hsub'
      rw [List.length_cons, List.length_take, List.length_take, hperm.length_eq] at hlen
      omega
    have hperm' : (sorted.take k).Perm (l.take k) := by
      apply (List.subperm_of_subset htake hsub).perm_of_length_le
      rw [List.length_take, List.length_take, hperm.length_eq]
    exact fun x => hperm'.mem_iff

end Prefix

end Java
