import Mathlib

/-!
# Java strings

A `String` is its sequence of UTF-16 code units, so that `length`,
`substring` and `compareTo` count what Java counts.  This file holds the
string operations that comma-separated records go through: `compareTo`,
`StringTokenizer` and `split`, and the filling of a fixed array from tokens.

* `compareTo_neg_iff`, `compareTo_eq_zero_iff` — `compareTo` is the
  lexicographic order of code units;
* `tokens_joinFields`, `split_joinFields` — both decoders give back the
  non-empty comma-free fields of a joined line.
-/

namespace Java

/-- One UTF-16 code unit. -/
abbrev JChar := Fin 65536

instance JChar.neZero : NeZero 65536 := ⟨by decide⟩

/-- A Java string: its code units in order. -/
abbrev JString := List JChar

/-- The Java string of a literal of the Basic Multilingual Plane. -/
def lit (s : String) : JString :=
  s.toList.map fun c => Fin.ofNat 65536 c.toNat

/-- The unchecked exceptions that the modelled programs can raise. -/
inductive Exception where
  | nullPointer
  | numberFormat
  | indexOutOfBounds
  | arrayIndexOutOfBounds
  | stringIndexOutOfBounds
  | illegalArgument
deriving DecidableEq, Repr

@[simp] theorem ok_bind {α β : Type} (a : α) (f : α → Except Exception β) :
    (Except.ok a >>= f) = f a := rfl

@[simp] theorem error_bind {α β : Type} (e : Exception) (f : α → Except Exception β) :
    (Except.error e >>= f) = .error e := rfl

/-- A sequence that returns normally does so in both of its parts. -/
theorem bind_eq_ok {α β : Type} {x : Except Exception α} {f : α → Except Exception β} {b : β}
    (h : (x >>= f) = .ok b) : ∃ a, x = .ok a ∧ f a = .ok b := by
  cases x with
  | error e => cases h
  | ok a => exact ⟨a, rfl, h⟩

/-- `list.get(i)`. -/
def listGet {α : Type} (l : List α) (i : Nat) : Except Exception α :=
  l[i]?.elim (.error .indexOutOfBounds) .ok

/-- A position inside the list is read without an exception. -/
theorem listGet_of_lt {α : Type} {l : List α} {i : Nat} (h : i < l.length) :
    listGet l i = .ok l[i] := by
  rw [listGet, List.getElem?_eq_getElem h]
  rfl

/-- A loop whose rounds all succeed. -/
theorem mapM_eq_ok {α β : Type} {f : α → Except Exception β} {g : α → β} {l : List α}
    (h : ∀ a ∈ l, f a = .ok (g a)) : l.mapM f = .ok (l.map g) := by
  induction l with
  | nil => rfl
  | cons a l ih =>
      rw [List.mapM_cons, h a List.mem_cons_self,
        ih fun b hb => h b (List.mem_cons_of_mem a hb)]
      rfl

/-- `String.compareTo`: the difference of the first code units that differ,
or of the lengths when one string is a prefix of the other. -/
def compareTo : JString → JString → Int
  | [], bs => -(bs.length : Int)
  | as, [] => as.length
  | a :: as, b :: bs =>
      if a = b then compareTo as bs else (a.val : Int) - b.val

/-- A negative answer is the lexicographic order. -/
theorem compareTo_neg_iff {s t : JString} : compareTo s t < 0 ↔ s < t := by
  induction s generalizing t with
  | nil =>
      cases t with
      | nil => simp [compareTo]
      | cons b bs =>
          have hneg : -((b :: bs).length : Int) < 0 := by
            rw [List.length_cons]
            omega
          exact iff_of_true hneg (List.nil_lt_cons b bs)
  | cons a as ih =>
      cases t with
      | nil =>
          have hpos : ¬ ((a :: as).length : Int) < 0 := by omega
          exact iff_of_false hpos (List.not_lt_nil _)
      | cons b bs =>
          rw [List.cons_lt_cons_iff]
          by_cases hab : a = b
          · simp [compareTo, hab, ih]
          · simp only [compareTo, hab, if_false, false_and, or_false, Fin.lt_def]
            omega

/-- The answer is zero on equal strings only. -/
theorem compareTo_eq_zero_iff {s t : JString} : compareTo s t = 0 ↔ s = t := by
  induction s generalizing t with
  | nil =>
      cases t with
      | nil => simp [compareTo]
      | cons b bs =>
          have hne : -((b :: bs).length : Int) ≠ 0 := by
            rw [List.length_cons]
            omega
          exact iff_of_false hne (List.cons_ne_nil b bs).symm
  | cons a as ih =>
      cases t with
      | nil =>
          have hne : ((a :: as).length : Int) ≠ 0 := by
            rw [List.length_cons]
            omega
          exact iff_of_false hne (List.cons_ne_nil a as)
      | cons b bs =>
          by_cases hab : a = b
          · simp [compareTo, hab, ih]
          · have hval : a.val ≠ b.val := fun h => hab (Fin.ext h)
            simp only [compareTo, hab, if_false, List.cons.injEq, false_and, iff_false]
            omega

/-- A positive answer is the reverse order. -/
theorem compareTo_pos_iff {s t : JString} : 0 < compareTo s t ↔ t < s := by
  have hneg := compareTo_neg_iff (s := s) (t := t)
  have hzero := compareTo_eq_zero_iff (s := s) (t := t)
  rcases lt_trichotomy s t with h | h | h
  · have := hneg.mpr h
    exact ⟨fun hp => by omega, fun ht => absurd ht h.asymm⟩
  · have := hzero.mpr h
    exact ⟨fun hp => by omega, fun ht => absurd (h ▸ ht) (lt_irrefl _)⟩
  · refine ⟨fun _ => h, fun _ => ?_⟩
    have h1 : ¬ compareTo s t < 0 := fun hn => (hneg.mp hn).asymm h
    have h2 : compareTo s t ≠ 0 := fun he => h.ne' (hzero.mp he)
    omega

/-- The field separator `','`. -/
def comma : JChar := 44

/-- The line with the given fields, as the encoders write it. -/
def joinFields (fields : List JString) : JString :=
  [comma].intercalate fields

/-- `new StringTokenizer(line, ",")` read to its end: the maximal non-empty
runs of characters other than the comma. -/
def tokens (line : JString) : List JString :=
  (line.splitOn comma).filter (· ≠ [])

/-- `line.split(",")`: the pieces between commas without the trailing empty
ones; a line without a comma is returned whole. -/
def split (line : JString) : List JString :=
  if comma ∈ line then (line.splitOn comma).rdropWhile (· = []) else [line]

/-- A field that both decoders can recover. -/
def IsField (s : JString) : Prop := s ≠ [] ∧ comma ∉ s

instance (s : JString) : Decidable (IsField s) := by
  unfold IsField; infer_instance

/-- Cutting at the commas undoes joining with them, for no field holds a comma. -/
theorem splitOn_joinFields {fields : List JString} (hne : fields ≠ [])
    (hfields : ∀ s ∈ fields, IsField s) :
    (joinFields fields).splitOn comma = fields :=
  List.splitOn_intercalate comma (fun s hs => (hfields s hs).2) hne

/-- The tokenizer recovers the fields of a joined line. -/
theorem tokens_joinFields {fields : List JString} (hne : fields ≠ [])
    (hfields : ∀ s ∈ fields, IsField s) :
    tokens (joinFields fields) = fields := by
  rw [tokens, splitOn_joinFields hne hfields, List.filter_eq_self]
  intro s hs
  simpa using (hfields s hs).1

/-- A joined line of two fields or more holds a comma, so `split` does cut it. -/
theorem comma_mem_joinFields {s t : JString} {rest : List JString} :
    comma ∈ joinFields (s :: t :: rest) := by
  simp [joinFields, List.intercalate_cons_cons]

/-- `split` recovers the fields of a joined line of two fields or more. -/
theorem split_joinFields {s t : JString} {rest : List JString}
    (hfields : ∀ u ∈ s :: t :: rest, IsField u) :
    split (joinFields (s :: t :: rest)) = s :: t :: rest := by
  rw [split, if_pos comma_mem_joinFields,
    splitOn_joinFields (List.cons_ne_nil _ _) hfields, List.rdropWhile_eq_self_iff]
  intro hl
  have hlast := (hfields _ (List.getLast_mem hl)).1
  simpa using hlast

/-- No piece between commas holds a comma, by induction on the line. -/
theorem comma_notMem_of_mem_splitOn {line piece : JString}
    (hpiece : piece ∈ line.splitOn comma) : comma ∉ piece := by
  induction line generalizing piece with
  | nil => simp_all
  | cons c rest ih =>
      rw [List.splitOn_cons_eq_if_modifyHead] at hpiece
      split at hpiece
      · rcases List.mem_cons.mp hpiece with rfl | hp
        · simp
        · exact ih hp
      · rename_i hc
        obtain ⟨head, tail, hsplit⟩ :=
          List.exists_cons_of_ne_nil (List.splitOn_ne_nil comma rest)
        rw [hsplit, List.modifyHead_cons] at hpiece
        rcases List.mem_cons.mp hpiece with rfl | hp
        · have hhead : comma ∉ head := ih (by simp [hsplit])
          rw [List.mem_cons, not_or]
          exact ⟨fun h => hc (by simp [h]), hhead⟩
        · exact ih (by simp [hsplit, hp])

/-- Every token is a field. -/
theorem isField_of_mem_tokens {line s : JString} (hs : s ∈ tokens line) : IsField s := by
  obtain ⟨hmem, hne⟩ := List.mem_filter.mp hs
  exact ⟨by simpa using hne, comma_notMem_of_mem_splitOn hmem⟩

/-- The two line terminators, `'\n'` and `'\r'`. -/
def isLineBreak (c : JChar) : Bool := c = 10 || c = 13

/-- A text that stands on one line. -/
def OneLine (s : JString) : Prop := ∀ c ∈ s, isLineBreak c = false

instance (s : JString) : Decidable (OneLine s) :=
  List.decidableBAll (fun c => isLineBreak c = false) s

/-- `BufferedReader.readLine` on a text that is not at its end. -/
def readLine (text : JString) : JString :=
  text.takeWhile fun c => !isLineBreak c

/-- A written line is read back without its terminator. -/
theorem readLine_append {s : JString} (rest : JString) (hs : OneLine s) :
    readLine (s ++ lit "\n" ++ rest) = s := by
  have hbreak : isLineBreak (10 : JChar) = true := by decide
  rw [readLine, show lit "\n" = [10] from by decide, List.append_assoc,
    List.takeWhile_append_of_pos fun c hc => by rw [hs c hc]; rfl]
  simp [hbreak]

theorem OneLine.append {s t : JString} (hs : OneLine s) (ht : OneLine t) :
    OneLine (s ++ t) := by
  intro c hc
  exact (List.mem_append.mp hc).elim (hs c) (ht c)

theorem oneLine_comma : OneLine [comma] := by decide

/-- Pieces on one line, joined by such a separator, stand on one line. -/
theorem OneLine.intercalate {separator : JString} (hseparator : OneLine separator)
    {pieces : List JString} (h : ∀ s ∈ pieces, OneLine s) :
    OneLine (separator.intercalate pieces) := by
  induction pieces with
  | nil => exact fun c hc => absurd hc (by simp)
  | cons s rest ih =>
      cases rest with
      | nil => simpa using h s
      | cons t rest =>
          have htail := ih fun u hu => h u (List.mem_cons_of_mem _ hu)
          rw [List.intercalate_cons_cons]
          exact ((h s List.mem_cons_self).append hseparator).append htail

/-- A line joined from fields on one line has no line break of its own. -/
theorem OneLine.joinFields {fields : List JString} (h : ∀ s ∈ fields, OneLine s) :
    OneLine (joinFields fields) :=
  oneLine_comma.intercalate h

/-- A token of a one-line text is one line. -/
theorem OneLine.of_mem_tokens {line s : JString} (h : OneLine line) (hs : s ∈ tokens line) :
    OneLine s := by
  have hpieces : ∀ l : List JString, s ∈ l → ∀ c ∈ s, c ∈ [comma].intercalate l := by
    intro l hl c hc
    induction l with
    | nil => cases hl
    | cons t rest ih =>
        cases rest with
        | nil =>
            rw [List.mem_singleton.mp hl] at hc
            simpa using hc
        | cons u rest =>
            rw [List.intercalate_cons_cons]
            rcases List.mem_cons.mp hl with rfl | hl
            · exact List.mem_append_left _ (List.mem_append_left _ hc)
            · exact List.mem_append_right _ (ih hl)
  intro c hc
  have hmem := hpieces (line.splitOn comma) (List.mem_filter.mp hs).1 c hc
  rw [List.intercalate_splitOn] at hmem
  exact h c hmem

/-- A `String[n]`, whose cells start as `null`. -/
abbrev StringArray (n : Nat) := Vector (Option JString) n

/-- `new String[n]`. -/
def emptyArray (n : Nat) : StringArray n := Vector.replicate n none

/-- `while (hasMoreTokens()) array[i++] = nextToken()` on a new `String[n]`. -/
def fillArray (n : Nat) (toks : List JString) : Except Exception (StringArray n) :=
  if toks.length ≤ n then .ok (Vector.ofFn fun i => toks[i.val]?)
  else .error .arrayIndexOutOfBounds

@[simp] theorem emptyArray_get {n i : Nat} (hi : i < n) : (emptyArray n)[i] = none := by
  simp [emptyArray]

/-- A filled array holds the tokens, and no more than fit. -/
theorem fillArray_eq_ok {n : Nat} {toks : List JString} {array : StringArray n}
    (h : fillArray n toks = .ok array) : ∀ (i : Nat) (hi : i < n), array[i] = toks[i]? := by
  intro i hi
  unfold fillArray at h
  split_ifs at h
  rw [← Except.ok.inj h, Vector.getElem_ofFn]

/-- As many tokens as cells, or fewer, fit into the array. -/
theorem fillArray_of_le {n : Nat} {toks : List JString} (h : toks.length ≤ n) :
    fillArray n toks = .ok (Vector.ofFn fun i => toks[i.val]?) :=
  if_pos h

end Java
