import ForexForest.FirstMax
import ForexForest.JavaText

/-!
# Hash maps as vote counters

The entries of a map are a list in order of first insertion: `put` replaces a
value in place and appends a new key at the end.  An iteration meets the same
entries in an order of its own; `HashMap.entrySet` is the order of
`java.util.HashMap` on `Integer` keys, bucket by bucket.

* `get_tally`, `mem_tally` — a counting loop leaves each key with its count;
* `maxEntry_eq_some_iff` — the maximum loop finds the first entry of greatest
  value;
* `elect_spec` — the two loops together elect a key with the most votes, in any
  order of iteration.
-/

namespace Java

/-- The entries of a map, in order of first insertion. -/
abbrev Entries (K V : Type) := List (K × V)

namespace Entries

variable {K V : Type} [DecidableEq K]

/-- `map.get(key)`. -/
def get : Entries K V → K → Option V
  | [], _ => none
  | (k, v) :: entries, key => if k = key then some v else get entries key

/-- `map.put(key, value)`. -/
def put : Entries K V → K → V → Entries K V
  | [], key, value => [(key, value)]
  | (k, v) :: entries, key, value =>
      if k = key then (k, value) :: entries else (k, v) :: put entries key value

/-- The keys in order of first insertion. -/
def keys (entries : Entries K V) : List K := entries.map Prod.fst

/-- The value just put under a key is found there. -/
@[simp] theorem get_put_self (entries : Entries K V) (key : K) (value : V) :
    (entries.put key value).get key = some value := by
  induction entries with
  | nil => simp [put, get]
  | cons e entries ih =>
      obtain ⟨k, v⟩ := e
      by_cases hk : k = key
      · simp [put, get, hk]
      · simp [put, get, hk, ih]

/-- What stands under another key is not touched. -/
theorem get_put_of_ne (entries : Entries K V) {key other : K} (h : key ≠ other) (value : V) :
    (entries.put key value).get other = entries.get other := by
  induction entries with
  | nil => simp [put, get, h]
  | cons e entries ih =>
      obtain ⟨k, v⟩ := e
      by_cases hk : k = key
      · subst hk
        simp [put, get, h]
      · simp [put, get, hk, ih]

/-- A new key goes to the end, a known one stays where it is. -/
theorem keys_put (entries : Entries K V) (key : K) (value : V) :
    (entries.put key value).keys =
      if key ∈ entries.keys then entries.keys else entries.keys ++ [key] := by
  induction entries with
  | nil => simp [put, keys]
  | cons e entries ih =>
      obtain ⟨k, v⟩ := e
      by_cases hk : k = key
      · subst hk
        simp [put, keys]
      · have hkey : key ≠ k := fun h => hk h.symm
        have hcons : ∀ entries : Entries K V, keys ((k, v) :: entries) = k :: keys entries :=
          fun _ => rfl
        simp only [put, if_neg hk, hcons, ih, List.mem_cons, hkey, false_or]
        split_ifs
        · rfl
        · rfl

/-- A key is never entered twice. -/
theorem nodup_keys_put {entries : Entries K V} (h : entries.keys.Nodup) (key : K) (value : V) :
    (entries.put key value).keys.Nodup := by
  rw [keys_put]
  split_ifs with hmem
  · exact h
  · exact h.append (List.nodup_singleton key) (by simpa using hmem)

/-- With distinct keys an entry is what `get` answers. -/
theorem mem_iff_get {entries : Entries K V} (h : entries.keys.Nodup) {key : K} {value : V} :
    (key, value) ∈ entries ↔ entries.get key = some value := by
  induction entries with
  | nil => simp [get]
  | cons e entries ih =>
      obtain ⟨k, v⟩ := e
      simp only [keys, List.map_cons, List.nodup_cons] at h
      by_cases hk : k = key
      · subst hk
        have hnot : (k, value) ∉ entries := fun hmem => h.1 (List.mem_map_of_mem hmem)
        simp [get, hnot, eq_comm]
      · have hkey : key ≠ k := fun heq => hk heq.symm
        simp [get, hk, hkey, ih h.2]

end Entries

section Tally

variable {K : Type} [DecidableEq K]

/-- One round of a counting loop: `put(label, count == null ? 1 : count + 1)`. -/
def vote (votes : Entries K Nat) (label : K) : Entries K Nat :=
  votes.put label (match votes.get label with | none => 1 | some count => count + 1)

/-- The map after the counting loop. -/
def tally (labels : List K) : Entries K Nat := labels.foldl vote []

/-- One more label is one more vote. -/
theorem tally_snoc (labels : List K) (label : K) :
    tally (labels ++ [label]) = vote (tally labels) label := by
  rw [tally, List.foldl_append]
  rfl

/-- The counts are exact, and only labels that were voted for are present. -/
theorem get_tally (labels : List K) (key : K) :
    (tally labels).get key = if labels.count key = 0 then none else some (labels.count key) := by
  induction labels using List.reverseRecOn with
  | nil => rfl
  | append_singleton labels label ih =>
      rw [tally_snoc, vote, List.count_append]
      by_cases hkey : label = key
      · subst hkey
        rw [Entries.get_put_self, ih, List.count_singleton_self]
        split_ifs with hzero
        · omega
        · simp [hzero]
        · omega
        · rfl
      · have hzero : [label].count key = 0 :=
          List.count_eq_zero.mpr fun h => hkey (List.mem_singleton.mp h).symm
        rw [Entries.get_put_of_ne _ hkey, ih, hzero, Nat.add_zero]

/-- Every label has one counter. -/
theorem nodup_keys_tally (labels : List K) : (tally labels).keys.Nodup := by
  induction labels using List.reverseRecOn with
  | nil => exact List.nodup_nil
  | append_singleton labels label ih =>
      rw [tally_snoc]
      exact Entries.nodup_keys_put ih _ _

/-- The keys stand in the order of the first votes for them. -/
theorem keys_tally_find (labels : List K) (p : K → Bool) :
    (tally labels).keys.find? p = labels.find? p := by
  induction labels using List.reverseRecOn with
  | nil => rfl
  | append_singleton labels label ih =>
      rw [tally_snoc, vote, Entries.keys_put, List.find?_append]
      split_ifs with hmem
      · rw [ih]
        cases hfind : labels.find? p with
        | some found => rfl
        | none =>
            have hlabel : ¬ p label = true :=
              List.find?_eq_none.mp (ih.trans hfind) label hmem
            simp [hlabel]
      · rw [List.find?_append, ih]

/-- The entries are the voted labels with their counts. -/
theorem mem_tally {labels : List K} {e : K × Nat} :
    e ∈ tally labels ↔ 0 < labels.count e.1 ∧ e.2 = labels.count e.1 := by
  obtain ⟨key, count⟩ := e
  rw [Entries.mem_iff_get (nodup_keys_tally labels), get_tally]
  split_ifs with hzero
  · simp [hzero]
  · rw [Option.some_inj]
    exact ⟨fun h => ⟨Nat.pos_of_ne_zero hzero, h.symm⟩, fun h => h.2.symm⟩

/-- `for (e : entries) if (max == null || e.getValue() > max.getValue()) max = e`. -/
def maxEntry (entries : Entries K Nat) : Option (K × Nat) :=
  entries.foldl (fun max e =>
    match max with
    | none => some e
    | some m => if m.2 < e.2 then some e else some m) none

omit [DecidableEq K] in
/-- The loop is a scan for the greatest value. -/
theorem maxEntry_eq_winner (entries : Entries K Nat) :
    maxEntry entries = Scan.winner Prod.snd (fun _ => True) entries := by
  unfold maxEntry Scan.winner
  congr 1
  funext max x
  cases max with
  | none => rfl
  | some m => rfl

omit [DecidableEq K] in
/-- The loop finds the first entry of greatest value. -/
theorem maxEntry_eq_some_iff {entries : Entries K Nat} {e : K × Nat} :
    maxEntry entries = some e ↔ Scan.IsFirstMax Prod.snd entries e := by
  rw [maxEntry_eq_winner, Scan.winner_eq_some_iff fun _ _ _ _ => trivial]
  exact and_iff_right trivial

/-- The label with the most votes, by the two loops. -/
def elect (entrySet : Entries K Nat → Entries K Nat) (labels : List K) : Option K :=
  (maxEntry (entrySet (tally labels))).map Prod.fst

/-- In any order of iteration a non-empty vote elects a label, which was voted
for and has at least as many votes as any other. -/
theorem elect_spec {entrySet : Entries K Nat → Entries K Nat}
    (horder : ∀ entries, (entrySet entries).Perm entries) {labels : List K} (hne : labels ≠ []) :
    ∃ label, elect entrySet labels = some label ∧ 0 < labels.count label ∧
      ∀ other, labels.count other ≤ labels.count label := by
  have hmem : ∀ e, e ∈ entrySet (tally labels) ↔
      0 < labels.count e.1 ∧ e.2 = labels.count e.1 := fun e =>
    (horder (tally labels)).mem_iff.trans mem_tally
  obtain ⟨first, rest, rfl⟩ := List.exists_cons_of_ne_nil hne
  have hentries : entrySet (tally (first :: rest)) ≠ [] := by
    apply List.ne_nil_of_mem (a := (first, (first :: rest).count first))
    exact (hmem _).mpr ⟨List.count_pos_iff.mpr List.mem_cons_self, rfl⟩
  obtain ⟨e, he⟩ := Scan.exists_isFirstMax Prod.snd hentries
  obtain ⟨hpos, hcount⟩ := (hmem e).mp he.mem
  refine ⟨e.1, by rw [elect, maxEntry_eq_some_iff.mpr he, Option.map_some], hpos, ?_⟩
  intro other
  by_cases hother : (first :: rest).count other = 0
  · omega
  · have hle := he.le ((hmem (other, (first :: rest).count other)).mpr
      ⟨Nat.pos_of_ne_zero hother, rfl⟩)
    rwa [hcount] at hle

end Tally

namespace HashMap

/-- The bucket of an `Integer` key in a table of 16: `(h ^ (h >>> 16)) & 15` on
the bits of the number. -/
def bucketIndex (key : Int32) : Nat :=
  let h := key.toUInt32
  ((h ^^^ (h >>> 16)) &&& 15).toNat

/-- The entries in iteration order: bucket by bucket, and inside a bucket in
order of insertion. -/
def entrySet {V : Type} (entries : Entries Int32 V) : Entries Int32 V :=
  (List.range 16).flatMap fun bucket => entries.filter fun e => bucketIndex e.1 = bucket

theorem bucketIndex_lt (key : Int32) : bucketIndex key < 16 := by
  unfold bucketIndex
  simp only [UInt32.toNat_and]
  exact Nat.lt_succ_of_le Nat.and_le_right

/-- An iteration meets every entry once. -/
theorem entrySet_perm (entries : Entries Int32 Nat) : (entrySet entries).Perm entries := by
  rw [List.perm_iff_count]
  intro e
  rw [entrySet, List.count_flatMap]
  have hterm : ∀ bucket, List.count e (entries.filter fun e => bucketIndex e.1 = bucket) =
      if bucketIndex e.1 = bucket then entries.count e else 0 := by
    intro bucket
    split_ifs with h
    · exact List.count_filter (by simpa using h)
    · exact List.count_eq_zero.mpr fun hmem => h (by simpa using (List.mem_filter.mp hmem).2)
  have hbucket : (List.range 16).count (bucketIndex e.1) = 1 :=
    List.count_eq_one_of_mem List.nodup_range (List.mem_range.mpr (bucketIndex_lt e.1))
  rw [Function.comp_def, List.map_congr_left fun bucket _ => hterm bucket,
    List.sum_map_eq_nsmul_single (bucketIndex e.1), if_pos rfl, hbucket, one_smul]
  intro bucket hne _
  exact if_neg hne.symm

end HashMap

end Java
