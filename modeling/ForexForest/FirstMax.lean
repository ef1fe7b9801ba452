import Mathlib

/-!
# The running maximum of a scan

A loop that keeps an incumbent and replaces it only by an element with a
strictly greater key ends with the **first** element of maximal key.  The loop
starts without an incumbent; an element may become the first one only when it
clears a bar (a sentinel that has to be beaten, or nothing at all).

* `isFirstMax_iff_of_pairwise` — the first maximum of a sorted list, without
  its position;
* `winner_eq_none_iff` — no incumbent at the end means that nothing cleared
  the bar;
* `winner_eq_some_iff` — the incumbent at the end is the first maximum of the
  whole list, and clears the bar.
-/

namespace Scan

variable {α β : Type} [LinearOrder β] (key : α → β)

/-- `x` is the first element of `l` with the greatest key. -/
def IsFirstMax (l : List α) (x : α) : Prop :=
  ∃ before after, l = before ++ x :: after ∧
    (∀ y ∈ before, key y < key x) ∧ ∀ y ∈ after, key y ≤ key x

variable {key}

/-- The first maximum is an element of its list. -/
theorem IsFirstMax.mem {l : List α} {x : α} (h : IsFirstMax key l x) : x ∈ l := by
  obtain ⟨before, after, rfl, -, -⟩ := h
  simp

/-- No key of the list is greater than that of the first maximum, in front of it or
behind it. -/
theorem IsFirstMax.le {l : List α} {x y : α} (h : IsFirstMax key l x) (hy : y ∈ l) :
    key y ≤ key x := by
  obtain ⟨before, after, rfl, hbefore, hafter⟩ := h
  rcases List.mem_append.mp hy with hy | hy
  · exact (hbefore y hy).le
  · rcases List.mem_cons.mp hy with rfl | hy
    · exact le_rfl
    · exact hafter y hy

/-- A list has one first maximum. -/
theorem IsFirstMax.unique {l : List α} {x y : α} (hx : IsFirstMax key l x)
    (hy : IsFirstMax key l y) : x = y := by
  obtain ⟨bx, ax, hlx, hbx, hax⟩ := hx
  obtain ⟨by', ay, rfl, hby, hay⟩ := hy
  rcases List.append_eq_append_iff.mp hlx with ⟨mid, hmid, htail⟩ | ⟨mid, hmid, htail⟩
  · cases mid with
    | nil => exact (List.cons.inj htail).1.symm
    | cons m mid =>
        simp only [List.cons_append, List.cons.injEq] at htail
        obtain ⟨rfl, rfl⟩ := htail
        have h1 := hay x (by simp)
        have h2 := hbx y (by simp [hmid])
        exact absurd h1 (not_le_of_gt h2)
  · cases mid with
    | nil => exact (List.cons.inj htail).1
    | cons m mid =>
        simp only [List.cons_append, List.cons.injEq] at htail
        obtain ⟨rfl, rfl⟩ := htail
        have h1 := hax y (by simp)
        have h2 := hby x (by simp [hmid])
        exact absurd h1 (not_le_of_gt h2)

/-- One more element at the end either becomes the first maximum or leaves it. -/
theorem IsFirstMax.snoc_of_lt {l : List α} {x y : α} (hx : IsFirstMax key l x)
    (h : key x < key y) : IsFirstMax key (l ++ [y]) y :=
  ⟨l, [], by simp, fun _ hz => (hx.le hz).trans_lt h, by simp⟩

theorem IsFirstMax.snoc_of_le {l : List α} {x y : α} (hx : IsFirstMax key l x)
    (h : key y ≤ key x) : IsFirstMax key (l ++ [y]) x := by
  obtain ⟨before, after, rfl, hbefore, hafter⟩ := hx
  refine ⟨before, after ++ [y], by simp, hbefore, ?_⟩
  intro z hz
  rcases List.mem_append.mp hz with hz | hz
  · exact hafter z hz
  · rw [List.mem_singleton.mp hz]
    exact h

/-- A first maximum in the second part beats everything in the first. -/
theorem IsFirstMax.lt_of_notMem {l l' : List α} {x : α} (h : IsFirstMax key (l ++ l') x)
    (hx : x ∉ l) {y : α} (hy : y ∈ l) : key y < key x := by
  obtain ⟨before, after, heq, hbefore, -⟩ := h
  rcases List.append_eq_append_iff.mp heq with ⟨mid, rfl, -⟩ | ⟨mid, rfl, htail⟩
  · exact hbefore y (List.mem_append_left mid hy)
  · cases mid with
    | nil =>
        rw [List.append_nil] at hy
        exact hbefore y hy
    | cons z mid =>
        rw [(List.cons.inj htail).1] at hx
        exact absurd (List.mem_append_right before List.mem_cons_self) hx

/-- If the head has the greatest key, it is the first maximum. -/
theorem IsFirstMax.head_of_le {l : List α} {x y : α} (h : IsFirstMax key (y :: l) x)
    (hxy : key x ≤ key y) : x = y := by
  obtain ⟨before, after, heq, hbefore, -⟩ := h
  cases before with
  | nil => exact (List.cons.inj heq).1.symm
  | cons z before =>
      have hlt := hbefore z List.mem_cons_self
      rw [← (List.cons.inj heq).1] at hlt
      exact absurd hxy (not_le_of_gt hlt)

/-- In a list sorted by a strict order the first maximum is the maximum that is
greater than everything below it in that order. -/
theorem isFirstMax_iff_of_pairwise {r : α → α → Prop} [Std.Irrefl r] [Std.Asymm r] {l : List α}
    (hsorted : l.Pairwise r) {x : α} :
    IsFirstMax key l x ↔
      x ∈ l ∧ (∀ y ∈ l, key y ≤ key x) ∧ ∀ y ∈ l, r y x → key y < key x := by
  constructor
  · intro h
    refine ⟨h.mem, fun y hy => h.le hy, ?_⟩
    intro y hy hyx
    obtain ⟨before, after, rfl, hbefore, -⟩ := h
    rcases List.mem_append.mp hy with hy | hy
    · exact hbefore y hy
    · have hafter := (List.pairwise_append.mp hsorted).2.1
      rw [List.pairwise_cons] at hafter
      rcases List.mem_cons.mp hy with rfl | hy
      · exact absurd hyx (Std.Irrefl.irrefl y)
      · exact absurd hyx (Std.Asymm.asymm x y (hafter.1 y hy))
  · rintro ⟨hmem, hmax, hfirst⟩
    obtain ⟨before, after, rfl⟩ := List.append_of_mem hmem
    refine ⟨before, after, rfl, ?_, ?_⟩
    · intro y hy
      apply hfirst y (List.mem_append_left _ hy)
      exact (List.pairwise_append.mp hsorted).2.2 y hy x List.mem_cons_self
    · intro y hy
      exact hmax y (List.mem_append_right _ (List.mem_cons_of_mem x hy))

variable (key) (clears : α → Prop) [DecidablePred clears]

/-- The loop body: without an incumbent the bar decides, with one the key. -/
def challenge : Option α → α → Option α
  | none, x => if clears x then some x else none
  | some best, x => if key best < key x then some x else some best

/-- The incumbent after the whole list. -/
def winner (l : List α) : Option α := l.foldl (challenge key clears) none

/-- One more element is one more challenge. -/
theorem winner_snoc (l : List α) (x : α) :
    winner key clears (l ++ [x]) = challenge key clears (winner key clears l) x := by
  simp [winner]

/-- A scan of mapped elements is a scan by the mapped keys. -/
theorem winner_map {γ : Type} (f : γ → α) (l : List γ) :
    winner key clears (l.map f) =
      (winner (fun y => key (f y)) (fun y => clears (f y)) l).map f := by
  induction l using List.reverseRecOn with
  | nil => rfl
  | append_singleton l y ih =>
      rw [List.map_append, List.map_singleton, winner_snoc, winner_snoc, ih]
      cases winner (fun y => key (f y)) (fun y => clears (f y)) l with
      | none =>
          rw [Option.map_none, challenge, challenge]
          split_ifs
          · rfl
          · rfl
      | some best =>
          rw [Option.map_some, challenge, challenge]
          split_ifs
          · rfl
          · rfl

variable {key clears}

/-- The state of the loop after any list: either nothing has cleared the bar or
the incumbent is the first maximum and clears it. -/
theorem winner_spec (key : α → β) (clears : α → Prop) [DecidablePred clears]
    (hbar : ∀ x y, clears x → key x ≤ key y → clears y) (l : List α) :
    (winner key clears l = none ∧ ∀ y ∈ l, ¬ clears y) ∨
      ∃ x, winner key clears l = some x ∧ clears x ∧ IsFirstMax key l x := by
  induction l using List.reverseRecOn with
  | nil => exact Or.inl ⟨rfl, by simp⟩
  | append_singleton l y ih =>
      rw [winner_snoc]
      rcases ih with ⟨hnone, hno⟩ | ⟨x, hsome, hclear, hmax⟩
      · rw [hnone, challenge]
        by_cases hy : clears y
        · refine Or.inr ⟨y, if_pos hy, hy, l, [], by simp, ?_, by simp⟩
          intro z hz
          exact lt_of_not_ge fun hle => hno z hz (hbar y z hy hle)
        · refine Or.inl ⟨if_neg hy, ?_⟩
          intro z hz
          rcases List.mem_append.mp hz with hz | hz
          · exact hno z hz
          · rwa [List.mem_singleton.mp hz]
      · rw [hsome, challenge]
        by_cases hlt : key x < key y
        · exact Or.inr ⟨y, if_pos hlt, hbar x y hclear hlt.le, hmax.snoc_of_lt hlt⟩
        · exact Or.inr ⟨x, if_neg hlt, hclear, hmax.snoc_of_le (not_lt.mp hlt)⟩

/-- Without an incumbent at the end, nothing in the list has cleared the bar. -/
theorem winner_eq_none_iff (hbar : ∀ x y, clears x → key x ≤ key y → clears y)
    {l : List α} : winner key clears l = none ↔ ∀ y ∈ l, ¬ clears y := by
  rcases winner_spec key clears hbar l with ⟨hnone, hno⟩ | ⟨x, hsome, hclear, hmax⟩
  · exact ⟨fun _ => hno, fun _ => hnone⟩
  · refine ⟨fun h => ?_, fun h => absurd hclear (h x hmax.mem)⟩
    rw [hsome] at h
    cases h

/-- An incumbent at the end is the first maximum of the whole list, and it clears
the bar. -/
theorem winner_eq_some_iff (hbar : ∀ x y, clears x → key x ≤ key y → clears y)
    {l : List α} {x : α} :
    winner key clears l = some x ↔ clears x ∧ IsFirstMax key l x := by
  rcases winner_spec key clears hbar l with ⟨hnone, hno⟩ | ⟨y, hsome, hclear, hmax⟩
  · rw [hnone]
    exact ⟨fun h => (by cases h), fun h => absurd h.1 (hno x h.2.mem)⟩
  · rw [hsome, Option.some_inj]
    constructor
    · rintro rfl
      exact ⟨hclear, hmax⟩
    · exact fun h => hmax.unique h.2

/-- A non-empty list has a first maximum. -/
theorem exists_isFirstMax (key : α → β) {l : List α} (hne : l ≠ []) : ∃ x, IsFirstMax key l x := by
  obtain ⟨-, hno⟩ | ⟨x, -, -, hmax⟩ :=
    winner_spec key (fun _ => True) (fun _ _ _ _ => trivial) l
  · obtain ⟨y, rest, rfl⟩ := List.exists_cons_of_ne_nil hne
    exact absurd trivial (hno y List.mem_cons_self)
  · exact ⟨x, hmax⟩

end Scan
