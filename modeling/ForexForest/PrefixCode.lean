import Mathlib

/-!
# Self-delimiting texts

A format that writes values one after another, without their lengths, can be
read back when no value's text can be mistaken for the beginning of another.
`Delimits` is this property of an encoding: whatever follows two texts, if the
whole is the same, then so are the values and what follows them.

* `EndsAt.append_inj` — a text ends at its mark when the mark first occurs
  there, so that the text and the rest are determined;
* `Delimits.framed` — values of several kinds, each written between a tag and a
  mark of its kind, delimit themselves;
* `Delimits.flatMap_inj` — a sequence of self-delimiting texts determines the
  values written.
-/

namespace PrefixCode

variable {α β ι : Type*}

/-- In `a` followed by the mark, the mark occurs at the end only. -/
def EndsAt (mark a : List α) : Prop := ∀ k < a.length, ¬ mark <+: (a ++ mark).drop k

instance [DecidableEq α] (mark a : List α) : Decidable (EndsAt mark a) :=
  inferInstanceAs (Decidable (∀ k < a.length, ¬ mark <+: (a ++ mark).drop k))

/-- A text without the first letter of the mark ends at the mark. -/
theorem endsAt_of_notMem {c : α} {mark a : List α} (h : c ∉ a) : EndsAt (c :: mark) a := by
  intro k hk hmark
  obtain ⟨rest, hrest⟩ := hmark
  have hget : (a ++ c :: mark)[k]? = some c := by
    rw [← List.head?_drop, ← hrest]
    rfl
  rw [List.getElem?_append_left hk] at hget
  exact h (List.mem_of_getElem? hget)

theorem endsAt_nil (mark : List α) : EndsAt mark [] :=
  fun _ hk => absurd hk (Nat.not_lt_zero _)

/-- A text does not go on past the mark of another one. -/
theorem EndsAt.length_le {mark a b s t : List α} (hb : EndsAt mark b)
    (h : a ++ (mark ++ s) = b ++ (mark ++ t)) : b.length ≤ a.length := by
  by_contra hlt
  have hfront : a ++ mark <+: b ++ (mark ++ t) := ⟨s, by rw [List.append_assoc, h]⟩
  have hback : b ++ mark <+: b ++ (mark ++ t) := ⟨t, List.append_assoc _ _ _⟩
  have hbegins : a ++ mark <+: b ++ mark := by
    apply List.prefix_of_prefix_length_le hfront hback
    simp only [List.length_append]
    omega
  obtain ⟨rest, hrest⟩ := hbegins
  apply hb a.length (by omega)
  rw [← hrest, List.append_assoc, List.drop_left]
  exact List.prefix_append mark rest

/-- The first occurrence of the mark cuts the text. -/
theorem EndsAt.append_inj {mark a b s t : List α} (ha : EndsAt mark a) (hb : EndsAt mark b)
    (h : a ++ (mark ++ s) = b ++ (mark ++ t)) : a = b ∧ s = t := by
  have hlength : a.length = b.length := le_antisymm (ha.length_le h.symm) (hb.length_le h)
  obtain ⟨hab, hrest⟩ := List.append_inj h hlength
  exact ⟨hab, List.append_cancel_left hrest⟩

/-- The text of a valid value tells the value and where the text ends. -/
def Delimits (encode : β → List α) (valid : β → Prop) : Prop :=
  ∀ x y, valid x → valid y → ∀ s t, encode x ++ s = encode y ++ t → x = y ∧ s = t

/-- Texts closed by one mark delimit themselves. -/
theorem delimits_mark (mark : List α) : Delimits (fun a => a ++ mark) (EndsAt mark) := by
  intro a b ha hb s t h
  simp only [List.append_assoc] at h
  exact ha.append_inj hb h

/-- Tags none of which begins another one delimit. -/
theorem delimits_tags {tag : ι → List α} (h : ∀ i j, tag i <+: tag j → i = j) :
    Delimits tag fun _ => True := by
  intro i j _ _ s t heq
  have hij : i = j := by
    have hbegins : tag j <+: tag i ++ s := ⟨t, heq.symm⟩
    rcases List.prefix_or_prefix_of_prefix (List.prefix_append (tag i) s) hbegins with hle | hle
    · exact h i j hle
    · exact (h j i hle).symm
  rw [hij] at heq
  exact ⟨hij, List.append_cancel_left heq⟩

namespace Delimits

variable {encode : β → List α} {valid : β → Prop}

/-- Between a tag and a mark, both of the kind of the value, stands a text that tells
the value among those of its kind. -/
theorem framed {tag mark : ι → List α} {kind : β → ι} {body : β → List α}
    (htag : ∀ i j, tag i <+: tag j → i = j)
    (hinj : ∀ x y, kind x = kind y → body x = body y → x = y)
    (hends : ∀ x, valid x → EndsAt (mark (kind x)) (body x)) :
    Delimits (fun x => tag (kind x) ++ (body x ++ mark (kind x))) valid := by
  intro x y hx hy s t h
  simp only [List.append_assoc] at h
  obtain ⟨hkind, hrest⟩ := delimits_tags htag _ _ trivial trivial _ _ h
  have hy' := hends y hy
  rw [← hkind] at hrest hy'
  obtain ⟨hbody, hst⟩ := (hends x hx).append_inj hy' hrest
  exact ⟨hinj x y hkind hbody, hst⟩

/-- A sequence of texts determines the values written. -/
theorem flatMap_inj (h : Delimits encode valid) (hne : ∀ x, valid x → encode x ≠ [])
    {l l' : List β} (hl : ∀ x ∈ l, valid x) (hl' : ∀ x ∈ l', valid x)
    (heq : l.flatMap encode = l'.flatMap encode) : l = l' := by
  induction l generalizing l' with
  | nil =>
      cases l' with
      | nil => rfl
      | cons y l' =>
          have hnil : encode y = [] := by
            rw [List.flatMap_nil, List.flatMap_cons] at heq
            exact (List.append_eq_nil_iff.mp heq.symm).1
          exact absurd hnil (hne y (hl' y List.mem_cons_self))
  | cons x l ih =>
      cases l' with
      | nil =>
          have hnil : encode x = [] := by
            rw [List.flatMap_nil, List.flatMap_cons] at heq
            exact (List.append_eq_nil_iff.mp heq).1
          exact absurd hnil (hne x (hl x List.mem_cons_self))
      | cons y l' =>
          rw [List.flatMap_cons, List.flatMap_cons] at heq
          obtain ⟨hxy, hrest⟩ :=
            h x y (hl x List.mem_cons_self) (hl' y List.mem_cons_self) _ _ heq
          rw [hxy, ih (fun z hz => hl z (List.mem_cons_of_mem x hz))
            (fun z hz => hl' z (List.mem_cons_of_mem y hz)) hrest]

end Delimits

end PrefixCode
