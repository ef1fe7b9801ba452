import ForexForest.HashMap
import ForexForest.JavaLists

/-!
# Boxed integers

`Integer.valueOf` shares one box for each of the values from -128 to 127 and
allocates a new object for any other value, so `==` on two references compares
the values of small integers and the identities of all others.

`Alloc` counts the allocations of a run.  `Integer.eq_iff` is the meaning of
`==` between a reference that existed before some moment and one that was boxed
after it; `alloc_mapM`, `alloc_foldlM` and `alloc_foldlM_follows` carry such facts
through loops.  A `HashMap` finds a key by its value but keeps the object that it
was first given; `keyValues_boxedVote` forgets the objects of a vote again.
-/

namespace Java

/-- The values whose boxes are shared. -/
def IsCached (v : Int32) : Prop := -128 ≤ v.toInt ∧ v.toInt ≤ 127

instance (v : Int32) : Decidable (IsCached v) := by
  unfold IsCached; infer_instance

/-- A reference to an `Integer`: the shared box of a small value, or an object of
its own, known by the order of its allocation. -/
inductive Integer where
  | cached (value : Int32) (small : IsCached value)
  | object (address : Nat) (value : Int32) (large : ¬ IsCached value)
deriving DecidableEq

/-- A part of a run, on the number of objects allocated so far. -/
abbrev Alloc := StateT Nat (Except Exception)

/-- A step that returns hands its result and the heap to the next one. -/
theorem alloc_bind {α β : Type} {x : Alloc α} {f : α → Alloc β} {a : α} {next after : Nat}
    (h : x next = .ok (a, after)) : (x >>= f) next = f a after := by
  change (x next >>= fun r => f r.1 r.2) = f a after
  rw [h, ok_bind]

/-- A step without boxes leaves the heap as it is. -/
theorem alloc_lift {α β : Type} {x : Except Exception α} {f : α → Alloc β} {a : α} {next : Nat}
    (h : x = .ok a) : ((StateT.lift x : Alloc α) >>= f) next = f a next := by
  subst h
  rfl

/-- If two steps returned, one after the other, then each of them did. -/
theorem alloc_bind_eq_ok {α β : Type} {x : Alloc α} {f : α → Alloc β} {b : β} {next after : Nat}
    (h : (x >>= f) next = .ok (b, after)) :
    ∃ a middle, x next = .ok (a, middle) ∧ f a middle = .ok (b, after) := by
  obtain ⟨⟨a, middle⟩, hx, hf⟩ := bind_eq_ok h
  exact ⟨a, middle, hx, hf⟩

/-- If such a step returned, it did not move the heap. -/
theorem alloc_lift_eq_ok {α : Type} {x : Except Exception α} {a : α} {next after : Nat}
    (h : (StateT.lift x : Alloc α) next = .ok (a, after)) : x = .ok a ∧ next = after := by
  cases x with
  | error e => cases h
  | ok b =>
      cases h
      exact ⟨rfl, rfl⟩

namespace Integer

/-- `intValue()`, which unboxing calls. -/
def intValue : Integer → Int32
  | cached value _ => value
  | object _ value _ => value

/-- `Integer.valueOf`, which boxing calls. -/
def valueOf (v : Int32) : Alloc Integer := fun next =>
  if h : IsCached v then .ok (cached v h, next) else .ok (object next v h, next + 1)

/-- The reference existed when `next` objects had been allocated. -/
def Before (next : Nat) : Integer → Prop
  | cached _ _ => True
  | object address _ _ => address < next

/-- The reference is shared or was allocated from then on. -/
def From (next : Nat) : Integer → Prop
  | cached _ _ => True
  | object address _ _ => next ≤ address

/-- What was allocated before an address was allocated before every later one. -/
theorem Before.mono {next after : Nat} (h : next ≤ after) {b : Integer} (hb : b.Before next) :
    b.Before after := by
  cases b with
  | cached => trivial
  | object => exact Nat.lt_of_lt_of_le hb h

/-- What was allocated from an address on was allocated from every earlier one on.
-/
theorem From.mono {next after : Nat} (h : next ≤ after) {b : Integer} (hb : b.From after) :
    b.From next := by
  cases b with
  | cached => trivial
  | object => exact Nat.le_trans h hb

/-- **Reference equality.**  A reference equals one that was boxed later exactly
when both hold the same small value. -/
theorem eq_iff {next : Nat} {a b : Integer} (ha : a.Before next) (hb : b.From next) :
    a = b ↔ a.intValue = b.intValue ∧ IsCached a.intValue := by
  cases a with
  | cached value small =>
      cases b with
      | cached other _ => simp [intValue, small]
      | object address other large =>
          constructor
          · intro h
            cases h
          · intro h
            have hsame : value = other := h.1
            rw [hsame] at small
            exact absurd small large
  | object address value large =>
      constructor
      · intro h
        rw [← h] at hb
        exact absurd ha (Nat.not_lt.mpr hb)
      · intro h
        exact absurd h.2 large

/-- Boxing makes a box for the value, and a new one if it is not shared. -/
theorem valueOf_spec (v : Int32) (next : Nat) : ∃ b after, valueOf v next = .ok (b, after) ∧
    b.intValue = v ∧ b.From next ∧ b.Before after ∧ next ≤ after := by
  by_cases h : IsCached v
  · exact ⟨cached v h, next, dif_pos h, rfl, trivial, trivial, le_rfl⟩
  · exact ⟨object next v h, next + 1, dif_neg h, rfl, le_refl next, Nat.lt_succ_self next,
      Nat.le_succ next⟩

end Integer

/-- A loop of allocating rounds: each round's result is as promised, reading the
promise from the start of the loop. -/
theorem alloc_mapM {α β : Type} {f : α → Alloc β} {R : Nat → α → β → Prop}
    (hearlier : ∀ a b next middle, next ≤ middle → R middle a b → R next a b) {l : List α}
    (hround : ∀ a ∈ l, ∀ next, ∃ b after, f a next = .ok (b, after) ∧ R next a b ∧ next ≤ after)
    (next : Nat) :
    ∃ results after, l.mapM f next = .ok (results, after) ∧
      List.Forall₂ (R next) l results ∧ next ≤ after := by
  induction l generalizing next with
  | nil => exact ⟨[], next, rfl, List.Forall₂.nil, le_rfl⟩
  | cons a l ih =>
      obtain ⟨b, middle, hb, hR, hmiddle⟩ := hround a List.mem_cons_self next
      obtain ⟨results, after, hresults, hall, hafter⟩ :=
        ih (fun c hc => hround c (List.mem_cons_of_mem a hc)) middle
      refine ⟨b :: results, after, ?_, List.Forall₂.cons hR ?_, hmiddle.trans hafter⟩
      · rw [List.mapM_cons, alloc_bind hb, alloc_bind hresults]
        rfl
      · exact hall.imp fun c d hcd => hearlier c d next middle hmiddle hcd

/-- A loop that adds a result in each round: after it every result is as promised,
reading the promise at the end of the loop. -/
theorem alloc_foldlM {α β σ : Type} {f : σ → α → Alloc σ} {state : List β → σ}
    {R : Nat → α → β → Prop}
    (hlater : ∀ a b middle after, middle ≤ after → R middle a b → R after a b) {l : List α}
    (hround : ∀ results, ∀ a ∈ l, ∀ next, ∃ b after,
      f (state results) a next = .ok (state (results ++ [b]), after) ∧ R after a b ∧ next ≤ after)
    (next : Nat) :
    ∃ results after, l.foldlM f (state []) next = .ok (state results, after) ∧
      List.Forall₂ (R after) l results ∧ next ≤ after := by
  induction l using List.reverseRecOn with
  | nil => exact ⟨[], next, rfl, List.Forall₂.nil, le_rfl⟩
  | append_singleton l a ih =>
      obtain ⟨results, middle, hloop, hall, hmiddle⟩ :=
        ih fun results c hc => hround results c (List.mem_append_left _ hc)
      obtain ⟨b, after, hb, hR, hafter⟩ := hround results a (by simp) middle
      refine ⟨results ++ [b], after, ?_, ?_, hmiddle.trans hafter⟩
      · rw [List.foldlM_append, alloc_bind hloop, List.foldlM_cons, alloc_bind hb]
        rfl
      · have hearlier := hall.imp fun c d hcd => hlater c d middle after hafter hcd
        exact List.rel_append hearlier (List.Forall₂.cons hR List.Forall₂.nil)

/-- An allocating loop is a loop on the states with their numbers of objects. -/
theorem alloc_foldlM_eq {α σ : Type} (f : σ → α → Alloc σ) (l : List α) (st : σ) (next : Nat) :
    l.foldlM f st next = l.foldlM (fun (run : σ × Nat) a => f run.1 a run.2) (st, next) := by
  induction l generalizing st next with
  | nil => rfl
  | cons a l ih =>
      rw [List.foldlM_cons, List.foldlM_cons]
      exact congrArg (f st a next >>= ·) (funext fun run : σ × Nat => ih run.1 run.2)

/-- An allocating loop whose rounds follow those of a loop on the values follows
that loop; `P` is what it keeps besides. -/
theorem alloc_foldlM_follows {α σ τ : Type} {f : σ → α → Alloc σ}
    {g : τ → α → Except Exception τ} {values : σ → τ} {P : Nat → σ → Prop}
    (hround : ∀ st a next, P next st → ∀ result, g (values st) a = .ok result →
      ∃ boxed after, f st a next = .ok (boxed, after) ∧ values boxed = result ∧ P after boxed)
    {l : List α} {st : σ} {next : Nat} (hst : P next st) {result : τ}
    (h : l.foldlM g (values st) = .ok result) :
    ∃ boxed after, l.foldlM f st next = .ok (boxed, after) ∧ values boxed = result ∧
      P after boxed := by
  have hrounds : ∀ (run : σ × Nat) other a result, (values run.1 = other ∧ P run.2 run.1) →
      g other a = .ok result →
      ∃ final, f run.1 a run.2 = .ok final ∧ values final.1 = result ∧ P final.2 final.1 := by
    rintro ⟨st, next⟩ _ a result ⟨rfl, hst⟩ hnext
    obtain ⟨boxed, after, hboxed, hvalues, hkept⟩ := hround st a next hst result hnext
    exact ⟨(boxed, after), hboxed, hvalues, hkept⟩
  obtain ⟨⟨boxed, after⟩, hloop, hvalues, hkept⟩ :=
    foldlM_follows hrounds (show values (st, next).1 = values st ∧ _ from ⟨rfl, hst⟩) h
  exact ⟨boxed, after, (alloc_foldlM_eq f l st next).trans hloop, hvalues, hkept⟩

section Votes

/-- One round of a counting loop on a map with `Integer` keys: a key that equals
the label stays, with its object, and a new one goes to the end. -/
def boxedVote : Entries Integer Nat → Integer → Entries Integer Nat
  | [], label => [(label, 1)]
  | (key, count) :: votes, label =>
      if key.intValue = label.intValue then (key, count + 1) :: votes
      else (key, count) :: boxedVote votes label

/-- The entries without the identities of their keys. -/
def keyValues (votes : Entries Integer Nat) : Entries Int32 Nat :=
  votes.map fun e => (e.1.intValue, e.2)

/-- A vote on objects is, without the identities, a vote on values. -/
theorem keyValues_boxedVote (votes : Entries Integer Nat) (label : Integer) :
    keyValues (boxedVote votes label) = vote (keyValues votes) label.intValue := by
  induction votes with
  | nil => rfl
  | cons e votes ih =>
      obtain ⟨key, count⟩ := e
      by_cases hkey : key.intValue = label.intValue
      · simp [boxedVote, keyValues, vote, Entries.put, Entries.get, hkey]
      · have hput : vote (keyValues ((key, count) :: votes)) label.intValue =
            (key.intValue, count) :: vote (keyValues votes) label.intValue := by
          simp [vote, keyValues, Entries.put, Entries.get, hkey]
        rw [hput, ← ih, boxedVote, if_neg hkey]
        rfl

/-- The keys are labels that were voted for. -/
theorem mem_boxedVote {votes : Entries Integer Nat} {label : Integer} {e : Integer × Nat}
    (h : e ∈ boxedVote votes label) : e.1 = label ∨ ∃ old ∈ votes, old.1 = e.1 := by
  induction votes with
  | nil => exact Or.inl (congrArg Prod.fst (List.mem_singleton.mp h))
  | cons old votes ih =>
      obtain ⟨key, count⟩ := old
      unfold boxedVote at h
      split_ifs at h
      · rcases List.mem_cons.mp h with rfl | h
        · exact Or.inr ⟨(key, count), List.mem_cons_self, rfl⟩
        · exact Or.inr ⟨e, List.mem_cons_of_mem _ h, rfl⟩
      · rcases List.mem_cons.mp h with rfl | h
        · exact Or.inr ⟨(key, count), List.mem_cons_self, rfl⟩
        · obtain hlabel | ⟨old, hold, hkey⟩ := ih h
          · exact Or.inl hlabel
          · exact Or.inr ⟨old, List.mem_cons_of_mem _ hold, hkey⟩

/-- The maximum loop compares the counts only. -/
theorem maxEntry_keyValues (votes : Entries Integer Nat) :
    maxEntry (keyValues votes) = (maxEntry votes).map fun e => (e.1.intValue, e.2) := by
  rw [maxEntry_eq_winner, maxEntry_eq_winner, keyValues, Scan.winner_map]

/-- An order of iteration: for the keys of a map, in order of insertion, the
order in which its entries are met. -/
abbrev IterationOrder := List Int32 → Shuffle

namespace IterationOrder

/-- The entries of a map in the order of iteration. -/
def entrySet (order : IterationOrder) (votes : Entries Int32 Nat) : Entries Int32 Nat :=
  (order votes.keys).apply votes

/-- The entries of a map on objects: the order does not see their identities. -/
def boxedEntrySet (order : IterationOrder) (votes : Entries Integer Nat) : Entries Integer Nat :=
  (order (keyValues votes).keys).apply votes

/-- Objects are met in the order in which their values are. -/
theorem keyValues_boxedEntrySet (order : IterationOrder) (votes : Entries Integer Nat) :
    keyValues (order.boxedEntrySet votes) = order.entrySet (keyValues votes) :=
  (Shuffle.apply_map _ _ votes).symm

theorem entrySet_perm (order : IterationOrder) (votes : Entries Int32 Nat) :
    (order.entrySet votes).Perm votes :=
  Shuffle.apply_perm _ votes

end IterationOrder

end Votes

end Java
