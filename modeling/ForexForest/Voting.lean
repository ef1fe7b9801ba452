import ForexForest.HashMap

/-!
# Counting votes

What an election by counts promises, whatever is elected and whoever votes.

* `count_add_count_le` — two different keys share the votes;
* `length_le_of_elected` — when another key is elected, at least half of the
  votes miss the right one;
* `elected_of_majority` — a key with more than half of the votes is elected;
* `sum_countP_comm` — the pairs of two lists, counted by rows and by columns;
* `mul_countP_le_sum` — a bound per element, summed up.
-/

namespace Java

section Election

variable {K : Type} [DecidableEq K] {votes : List K} {elected truth : K}

/-- The votes for a key and the votes that miss it are all votes. -/
theorem count_add_countP_ne (votes : List K) (a : K) :
    votes.count a + votes.countP (fun vote => vote ≠ a) = votes.length := by
  have hcount : votes.count a = votes.countP fun vote => vote = a :=
    List.countP_congr fun vote _ => by simp
  rw [hcount, List.length_eq_countP_add_countP fun vote => vote = a]
  simp

/-- Two different keys share the votes: every vote goes to one of the two at most.
-/
theorem count_add_count_le (votes : List K) {a b : K} (hne : a ≠ b) :
    votes.count a + votes.count b ≤ votes.length := by
  have hb : votes.count b ≤ votes.countP fun vote => vote ≠ a := by
    refine List.countP_mono_left fun vote _ hvote => ?_
    rw [beq_iff_eq] at hvote
    simpa [hvote] using hne.symm
  have hall := count_add_countP_ne votes a
  omega

variable (hmost : ∀ other, votes.count other ≤ votes.count elected)
include hmost

/-- When another key than the right one is elected, at least half of the votes miss
the right one, since the elected key has no fewer than it. -/
theorem length_le_of_elected (hne : elected ≠ truth) :
    votes.length ≤ 2 * votes.countP fun vote => vote ≠ truth := by
  have hshare := count_add_count_le votes hne
  have hall := count_add_countP_ne votes truth
  have hle := hmost truth
  omega

/-- A key with more than half of the votes is elected, however ties are broken. -/
theorem elected_of_majority (hmajority : votes.length < 2 * votes.count truth) :
    elected = truth := by
  by_contra hne
  have hmissed := length_le_of_elected hmost hne
  have hall := count_add_countP_ne votes truth
  omega

end Election

section Sums

variable {α β : Type}

/-- Counting is summing ones, so that counts can be exchanged as sums are. -/
theorem countP_eq_sum (p : α → Bool) (l : List α) :
    l.countP p = (l.map fun a => if p a then 1 else 0).sum := by
  induction l with
  | nil => rfl
  | cons a l ih => rw [List.countP_cons, List.map_cons, List.sum_cons, ih, Nat.add_comm]

/-- The pairs of two lists that satisfy `p`, counted by rows and by columns. -/
theorem sum_countP_comm (p : α → β → Bool) (l : List α) (m : List β) :
    (l.map fun a => m.countP (p a)).sum = (m.map fun b => l.countP fun a => p a b).sum := by
  induction l with
  | nil => simp
  | cons a l ih =>
      rw [List.map_cons, List.sum_cons, ih, countP_eq_sum, ← List.sum_map_add]
      congr 1
      apply List.map_congr_left
      intro b _
      rw [List.countP_cons, Nat.add_comm]

/-- If every counted element brings at least `n`, the sum over the whole list is at
least `n` times the count. -/
theorem mul_countP_le_sum {n : Nat} {p : α → Bool} {f : α → Nat} {l : List α}
    (h : ∀ a ∈ l, p a = true → n ≤ f a) : n * l.countP p ≤ (l.map f).sum := by
  induction l with
  | nil => simp
  | cons a l ih =>
      have hrest := ih fun b hb => h b (List.mem_cons_of_mem a hb)
      rw [List.countP_cons, List.map_cons, List.sum_cons, Nat.mul_add]
      split_ifs with hp
      · have hhead := h a List.mem_cons_self hp
        omega
      · omega

end Sums

end Java
