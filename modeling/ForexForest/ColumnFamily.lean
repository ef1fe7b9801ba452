import ForexForest.Comparator
import ForexForest.HashMap

/-!
# A sorted column store

A row holds its columns sorted by name, one column per name, whatever the order
in which they were added; a column family is a map from row keys to rows.  The
values of the columns are left out: the programs only use the names.

The order of the names is a parameter, a comparator that answers zero on equal
names only.
-/

namespace Java

section Row

variable (names : Comparator JString)

/-- A name in its place among sorted names; a present name is not repeated. -/
def insertName : List JString → JString → List JString
  | [], name => [name]
  | column :: columns, name =>
      if names.compare name column < 0 then name :: column :: columns
      else if names.compare name column = 0 then column :: columns
      else column :: insertName columns name

variable {names}

/-- An inserted name brings nothing else into the row. -/
theorem mem_of_mem_insertName {columns : List JString} {name other : JString}
    (h : other ∈ insertName names columns name) : other = name ∨ other ∈ columns := by
  induction columns with
  | nil => exact Or.inl (List.mem_singleton.mp h)
  | cons column columns ih =>
      unfold insertName at h
      split_ifs at h
      · exact List.mem_cons.mp h
      · exact Or.inr h
      · rcases List.mem_cons.mp h with rfl | h
        · exact Or.inr List.mem_cons_self
        · exact (ih h).imp_right (List.mem_cons_of_mem column)

/-- Insertion keeps the names sorted and different: a name that ties with one that
is there is not inserted again. -/
theorem insertName_sorted {columns : List JString}
    (h : columns.Pairwise fun a b => names.compare a b < 0) (name : JString) :
    (insertName names columns name).Pairwise fun a b => names.compare a b < 0 := by
  induction columns with
  | nil => exact List.pairwise_singleton _ _
  | cons column columns ih =>
      obtain ⟨hhead, htail⟩ := List.pairwise_cons.mp h
      unfold insertName
      split_ifs with hlt heq
      · refine List.pairwise_cons.mpr ⟨fun other hother => ?_, h⟩
        rcases List.mem_cons.mp hother with rfl | hother
        · exact hlt
        · exact names.lt_trans hlt (hhead other hother)
      · exact h
      · refine List.pairwise_cons.mpr ⟨fun other hother => ?_, ih htail⟩
        rcases mem_of_mem_insertName hother with rfl | hother
        · have := names.swap column other
          omega
        · exact hhead other hother

variable (names)

/-- The columns of a row, sorted by name. -/
structure Row where
  columns : List JString
  sorted : columns.Pairwise fun a b => names.compare a b < 0

namespace Row

/-- The row without columns. -/
def empty : Row names := ⟨[], List.Pairwise.nil⟩

variable {names}

/-- The row with one more column. -/
def add (row : Row names) (name : JString) : Row names :=
  ⟨insertName names row.columns name, insertName_sorted row.sorted name⟩

/-- Adding a column adds its name and keeps the others. -/
theorem mem_add (hnames : ∀ a b, names.compare a b = 0 → a = b) {row : Row names}
    {name other : JString} :
    other ∈ (row.add name).columns ↔ other = name ∨ other ∈ row.columns := by
  refine ⟨mem_of_mem_insertName, ?_⟩
  change _ → other ∈ insertName names row.columns name
  generalize row.columns = columns
  intro h
  induction columns with
  | nil => exact List.mem_singleton.mpr (h.resolve_right (List.not_mem_nil))
  | cons column columns ih =>
      unfold insertName
      split_ifs with hlt heq
      · exact List.mem_cons.mpr h
      · rcases h with rfl | h
        · exact List.mem_cons.mpr (Or.inl (hnames _ _ heq))
        · exact h
      · rcases h with rfl | h
        · exact List.mem_cons_of_mem column (ih (Or.inl rfl))
        · rcases List.mem_cons.mp h with rfl | h
          · exact List.mem_cons_self
          · exact List.mem_cons_of_mem column (ih (Or.inr h))

/-- The columns of a row have different names, for a strict order is irreflexive. -/
theorem nodup (row : Row names) : row.columns.Nodup := by
  apply row.sorted.imp
  intro a b hab heq
  rw [heq] at hab
  exact names.lt_asymm hab hab

end Row

/-- The rows of a column family, by key. -/
abbrev ColumnFamily := Entries JString (Row names)

namespace ColumnFamily

variable {names}

/-- The row under a key; an absent row has no columns. -/
def rowAt (store : ColumnFamily names) (key : JString) : Row names :=
  (store.get key).getD (Row.empty names)

/-- `client.add`: one more column in the row under `key`. -/
def add (store : ColumnFamily names) (key name : JString) : ColumnFamily names :=
  store.put key ((rowAt store key).add name)

/-- Adding a column changes the row under its key as `Row.add` does. -/
@[simp] theorem rowAt_add_self (store : ColumnFamily names) (key name : JString) :
    rowAt (add store key name) key = (rowAt store key).add name := by
  rw [rowAt, add, Entries.get_put_self, Option.getD_some]

/-- Adding a column leaves the rows under other keys alone. -/
theorem rowAt_add_of_ne (store : ColumnFamily names) {key other : JString} (h : key ≠ other)
    (name : JString) : rowAt (add store key name) other = rowAt store other := by
  rw [rowAt, add, Entries.get_put_of_ne _ h, rowAt]

/-- Adding a list of columns to a row leaves it with their names besides its
own. -/
theorem mem_rowAt_foldl_add (hnames : ∀ a b, names.compare a b = 0 → a = b) {α : Type}
    (text : α → JString) (key : JString) (l : List α) (store : ColumnFamily names)
    (name : JString) :
    name ∈ (rowAt (l.foldl (fun store a => add store key (text a)) store) key).columns ↔
      name ∈ (rowAt store key).columns ∨ ∃ a ∈ l, name = text a := by
  induction l generalizing store with
  | nil => simp
  | cons a l ih =>
      rw [List.foldl_cons, ih, rowAt_add_self, Row.mem_add hnames]
      simp only [List.mem_cons, exists_eq_or_imp]
      tauto

/-- A loop that adds columns to one row leaves every other row alone. -/
theorem rowAt_foldl_add_of_ne {α : Type} (text : α → JString) {key other : JString}
    (h : key ≠ other) (l : List α) (store : ColumnFamily names) :
    rowAt (l.foldl (fun store a => add store key (text a)) store) other = rowAt store other := by
  induction l generalizing store with
  | nil => rfl
  | cons a l ih => rw [List.foldl_cons, ih, rowAt_add_of_ne store h]

end ColumnFamily

end Row

end Java
