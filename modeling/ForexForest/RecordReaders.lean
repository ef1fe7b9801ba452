import ForexForest.CsvRoundTrip

/-!
# The two readers of a record

Most of the programs read a prepared line with a tokenizer, which passes over empty
fields and refuses a seventh one; the mapper splits the line, which keeps empty fields
in front and ignores what follows the sixth.

`readRecord_eq_ok_iff` and `ofRecord_eq_ok_iff` say what each of them accepts, and
`readers_agree_iff` on which lines both give the same candle: a record, followed by any
number of commas.
-/

namespace Java

theorem joinFields_cons_cons (s t : JString) (rest : List JString) :
    joinFields (s :: t :: rest) = s ++ comma :: joinFields (t :: rest) := by
  simp [joinFields, List.intercalate_cons_cons]

theorem joinFields_cons_replicate (s : JString) (k : Nat) :
    joinFields (s :: List.replicate k []) = s ++ List.replicate k comma := by
  induction k generalizing s with
  | zero => simp [joinFields]
  | succ k ih => rw [List.replicate_succ, joinFields_cons_cons, ih, List.nil_append,
      List.replicate_succ]

/-- Empty fields at the end of a line are commas. -/
theorem joinFields_append_replicate {fields : List JString} (hne : fields ≠ []) (k : Nat) :
    joinFields (fields ++ List.replicate k []) =
      joinFields fields ++ List.replicate k comma := by
  induction fields with
  | nil => exact absurd rfl hne
  | cons s fields ih =>
      cases fields with
      | nil =>
          rw [List.singleton_append, joinFields_cons_replicate]
          simp [joinFields]
      | cons t fields =>
          rw [List.cons_append, List.cons_append, joinFields_cons_cons, joinFields_cons_cons,
            ← List.cons_append, ih (List.cons_ne_nil _ _), List.append_assoc, List.cons_append]

section Pieces

variable {line : JString} {fields : List JString} {k : Nat}

/-- The pieces of fields and commas. -/
theorem splitOn_fields (hne : fields ≠ []) (hfields : ∀ s ∈ fields, IsField s) :
    (joinFields fields ++ List.replicate k comma).splitOn comma =
      fields ++ List.replicate k [] := by
  rw [← joinFields_append_replicate hne]
  refine List.splitOn_intercalate comma (fun s hs => ?_) (by simp [hne])
  rcases List.mem_append.mp hs with hs | hs
  · exact (hfields s hs).2
  · rw [List.eq_of_mem_replicate hs]
    exact List.not_mem_nil

theorem filter_replicate_nil (k : Nat) :
    (List.replicate k ([] : JString)).filter (· ≠ []) = [] := by
  simp

/-- The tokenizer passes over the commas behind the fields. -/
theorem tokens_fields (hne : fields ≠ []) (hfields : ∀ s ∈ fields, IsField s) :
    tokens (joinFields fields ++ List.replicate k comma) = fields := by
  rw [tokens, splitOn_fields hne hfields, List.filter_append, filter_replicate_nil,
    List.append_nil, List.filter_eq_self]
  exact fun s hs => by simpa using (hfields s hs).1

/-- The pieces of a line are those that `split` returns, and empty ones. -/
theorem splitOn_eq_split (h : comma ∈ line) :
    ∃ k, line.splitOn comma = split line ++ List.replicate k [] := by
  rw [split, if_pos h]
  refine ⟨((line.splitOn comma).rtakeWhile (· = [])).length, ?_⟩
  conv_lhs => rw [← List.rdropWhile_append_rtakeWhile (p := (· = [])) (l := line.splitOn comma)]
  congr 1
  rw [List.eq_replicate_iff]
  exact ⟨rfl, fun s hs => by simpa using List.mem_rtakeWhile_imp hs⟩

/-- `split` drops the commas behind the fields. -/
theorem split_fields {s t : JString} {rest : List JString}
    (hfields : ∀ u ∈ s :: t :: rest, IsField u) :
    split (joinFields (s :: t :: rest) ++ List.replicate k comma) = s :: t :: rest := by
  have hdrop : ∀ k, ((s :: t :: rest) ++ List.replicate k []).rdropWhile (· = []) =
      s :: t :: rest := by
    intro k
    induction k with
    | zero =>
        rw [List.replicate_zero, List.append_nil, List.rdropWhile_eq_self_iff]
        intro hl
        simpa using (hfields _ (List.getLast_mem hl)).1
    | succ k ih =>
        rw [List.replicate_succ', ← List.append_assoc, List.rdropWhile_concat_pos _ _ _ (by simp),
          ih]
  rw [split, if_pos (List.mem_append_left _ comma_mem_joinFields),
    splitOn_fields (List.cons_ne_nil _ _) hfields, hdrop]

end Pieces

end Java

namespace Forex

open Java

namespace CandleStick

variable {jdk : Jdk} {line : JString} {c : CandleStick}

/-- The cells of prices and label that both readers parse. -/
structure Cells (jdk : Jdk) (c : CandleStick) (high low close label : JString) : Prop where
  high : jdk.parseDouble high = some c.high
  low : jdk.parseDouble low = some c.low
  close : jdk.parseDouble close = some c.close
  label : jdk.parseInt label = some c.label

/-- A price that was parsed comes from a cell that is there. -/
theorem parseDoubleCell_eq_ok {cell : Option JString} {d : Double}
    (h : parseDoubleCell jdk cell = .ok d) : ∃ s, cell = some s ∧ jdk.parseDouble s = some d := by
  cases cell with
  | none => cases h
  | some s =>
      rw [parseDoubleCell] at h
      cases hs : jdk.parseDouble s with
      | none =>
          rw [hs] at h
          cases h
      | some e =>
          rw [hs] at h
          exact ⟨s, rfl, hs.trans (congrArg some (Except.ok.inj h))⟩

/-- So does a label. -/
theorem parseIntCell_eq_ok {cell : Option JString} {i : Int32}
    (h : parseIntCell jdk cell = .ok i) : ∃ s, cell = some s ∧ jdk.parseInt s = some i := by
  cases cell with
  | none => cases h
  | some s =>
      rw [parseIntCell] at h
      cases hs : jdk.parseInt s with
      | none =>
          rw [hs] at h
          cases h
      | some j =>
          rw [hs] at h
          exact ⟨s, rfl, hs.trans (congrArg some (Except.ok.inj h))⟩

/-- The tokenizing reader accepts six tokens. -/
theorem readRecord_eq_ok_iff : readRecord jdk line = .ok c ↔
    ∃ high low close label, tokens line = [c.currencyPair, c.time, high, low, close, label] ∧
      Cells jdk c high low close label := by
  constructor
  · intro h
    obtain ⟨array, harray, h⟩ := bind_eq_ok h
    have hcells := fillArray_eq_ok harray
    have hlength : (tokens line).length ≤ 6 := by
      unfold fillArray at harray
      split_ifs at harray with hle
      exact hle
    obtain ⟨high, hhigh, h⟩ := bind_eq_ok h
    obtain ⟨low, hlow, h⟩ := bind_eq_ok h
    obtain ⟨close, hclose, h⟩ := bind_eq_ok h
    obtain ⟨label, hlabel, h⟩ := bind_eq_ok h
    have hc := Except.ok.inj h
    rw [hcells 0 (by decide), hcells 1 (by decide)] at hc
    rw [hcells 2 (by decide)] at hhigh
    rw [hcells 3 (by decide)] at hlow
    rw [hcells 4 (by decide)] at hclose
    rw [hcells 5 (by decide)] at hlabel
    obtain ⟨highText, hhighText, hhighParse⟩ := parseDoubleCell_eq_ok hhigh
    obtain ⟨lowText, hlowText, hlowParse⟩ := parseDoubleCell_eq_ok hlow
    obtain ⟨closeText, hcloseText, hcloseParse⟩ := parseDoubleCell_eq_ok hclose
    obtain ⟨labelText, hlabelText, hlabelParse⟩ := parseIntCell_eq_ok hlabel
    clear hhigh hlow hclose hlabel
    generalize tokens line = toks at hc hlength hhighText hlowText hcloseText hlabelText ⊢
    match toks with
    | [] | [_] | [_, _] | [_, _, _] | [_, _, _, _] | [_, _, _, _, _] => cases hlabelText
    | [_, _, _, _, _, _] =>
        cases hhighText
        cases hlowText
        cases hcloseText
        cases hlabelText
        rw [← hc]
        exact ⟨_, _, _, _, rfl, hhighParse, hlowParse, hcloseParse, hlabelParse⟩
    | _ :: _ :: _ :: _ :: _ :: _ :: _ :: _ =>
        simp at hlength
        omega
  · intro hex
    obtain ⟨high, low, close, label, htokens, hcells⟩ := hex
    rw [readRecord, htokens, fillArray_of_le (by simp), ok_bind]
    simp [ofFeaturesNLabel, parseDoubleCell, parseIntCell, hcells.high, hcells.low, hcells.close,
      hcells.label]

/-- An element that was read is there. -/
theorem element_eq_ok {elements : List JString} {i : Nat} {s : JString}
    (h : element elements i = .ok s) : elements[i]? = some s := by
  rw [element] at h
  cases hs : elements[i]? with
  | none =>
      rw [hs] at h
      cases h
  | some t =>
      rw [hs] at h
      exact congrArg some (Except.ok.inj h)

/-- The splitting reader accepts six fields and whatever follows. -/
theorem ofRecord_eq_ok_iff : ofRecord jdk line = .ok c ↔
    ∃ high low close label rest,
      split line = c.currencyPair :: c.time :: high :: low :: close :: label :: rest ∧
      Cells jdk c high low close label := by
  constructor
  · intro h
    obtain ⟨pair, hpair, h⟩ := bind_eq_ok h
    obtain ⟨time, htime, h⟩ := bind_eq_ok h
    obtain ⟨highText, hhighText, h⟩ := bind_eq_ok h
    obtain ⟨high, hhigh, h⟩ := bind_eq_ok h
    obtain ⟨lowText, hlowText, h⟩ := bind_eq_ok h
    obtain ⟨low, hlow, h⟩ := bind_eq_ok h
    obtain ⟨closeText, hcloseText, h⟩ := bind_eq_ok h
    obtain ⟨close, hclose, h⟩ := bind_eq_ok h
    obtain ⟨labelText, hlabelText, h⟩ := bind_eq_ok h
    obtain ⟨label, hlabel, h⟩ := bind_eq_ok h
    obtain ⟨_, ⟨⟩, hhigh⟩ := parseDoubleCell_eq_ok hhigh
    obtain ⟨_, ⟨⟩, hlow⟩ := parseDoubleCell_eq_ok hlow
    obtain ⟨_, ⟨⟩, hclose⟩ := parseDoubleCell_eq_ok hclose
    obtain ⟨_, ⟨⟩, hlabel⟩ := parseIntCell_eq_ok hlabel
    cases h
    have hpair := element_eq_ok hpair
    have htime := element_eq_ok htime
    have hhighText := element_eq_ok hhighText
    have hlowText := element_eq_ok hlowText
    have hcloseText := element_eq_ok hcloseText
    have hlabelText := element_eq_ok hlabelText
    generalize split line = elements at *
    match elements with
    | [] | [_] | [_, _] | [_, _, _] | [_, _, _, _] | [_, _, _, _, _] => cases hlabelText
    | _ :: _ :: _ :: _ :: _ :: _ :: rest =>
        cases hpair
        cases htime
        cases hhighText
        cases hlowText
        cases hcloseText
        cases hlabelText
        exact ⟨_, _, _, _, rest, rfl, hhigh, hlow, hclose, hlabel⟩
  · intro hex
    obtain ⟨high, low, close, label, rest, hsplit, hcells⟩ := hex
    rw [ofRecord, hsplit]
    simp [element, parseDoubleCell, parseIntCell, hcells.high, hcells.low, hcells.close,
      hcells.label]

/-- **Where the two readers agree.**  Since an empty text is no number, both readers give
the same candle exactly on its six fields, none of them empty, followed by commas. -/
theorem readers_agree_iff (hdouble : jdk.parseDouble [] = none) (hint : jdk.parseInt [] = none) :
    (readRecord jdk line = .ok c ∧ ofRecord jdk line = .ok c) ↔
      ∃ high low close label k,
        (∀ s ∈ [c.currencyPair, c.time, high, low, close, label], IsField s) ∧
        Cells jdk c high low close label ∧
        line = joinFields [c.currencyPair, c.time, high, low, close, label] ++
          List.replicate k comma := by
  rw [readRecord_eq_ok_iff, ofRecord_eq_ok_iff]
  constructor
  · intro hboth
    obtain ⟨⟨high, low, close, label, htokens, hcells⟩,
      ⟨high', low', close', label', rest, hsplit, hcells'⟩⟩ := hboth
    have hfields : ∀ s ∈ [c.currencyPair, c.time, high, low, close, label], IsField s := by
      rw [← htokens]
      exact fun s hs => isField_of_mem_tokens hs
    have hcomma : comma ∈ line := by
      by_contra hnone
      rw [split, if_neg hnone] at hsplit
      cases hsplit
    obtain ⟨k, hpieces⟩ := splitOn_eq_split hcomma
    have hnumber {s : JString} {d : Double} (hs : jdk.parseDouble s = some d) : s ≠ [] := by
      intro hnil
      rw [hnil, hdouble] at hs
      cases hs
    have hlabel : label' ≠ [] := by
      intro hnil
      have hnumber := hcells'.label
      rw [hnil, hint] at hnumber
      cases hnumber
    -- none of the first six pieces is empty, so they are the tokens
    have hkept := htokens
    rw [tokens, hpieces, hsplit, List.filter_append, filter_replicate_nil, List.append_nil] at hkept
    have hpair := (hfields c.currencyPair (by simp)).1
    have htime := (hfields c.time (by simp)).1
    simp only [List.filter_cons, decide_not, hpair, htime, hnumber hcells'.high,
      hnumber hcells'.low, hnumber hcells'.close, hlabel, decide_false, Bool.not_false, if_true,
      List.cons.injEq, true_and, List.filter_eq_nil_iff] at hkept
    obtain ⟨rfl, rfl, rfl, rfl, hrest⟩ := hkept
    refine ⟨high', low', close', label', rest.length + k, hfields, hcells, ?_⟩
    have hempty : rest = List.replicate rest.length [] :=
      List.eq_replicate_iff.mpr ⟨rfl, fun s hs => by simpa using hrest s hs⟩
    rw [← joinFields_append_replicate (List.cons_ne_nil _ _), List.replicate_add, ← hempty,
      ← List.append_assoc]
    have hline : [comma].intercalate (line.splitOn comma) = line :=
      List.intercalate_splitOn comma
    rw [hpieces, hsplit] at hline
    exact hline.symm
  · intro hex
    obtain ⟨high, low, close, label, k, hfields, hcells, rfl⟩ := hex
    exact ⟨⟨high, low, close, label, tokens_fields (List.cons_ne_nil _ _) hfields, hcells⟩,
      ⟨high, low, close, label, [], split_fields hfields, hcells⟩⟩

/-- Both readers pass over two commas at the end of a record. -/
theorem readers_agree_iff_sample :
    readRecord Jdk.sample (lit "USD/JPY,20150803 16:35,2.0,1.0,1.5,-1,,") = .ok sample ∧
      ofRecord Jdk.sample (lit "USD/JPY,20150803 16:35,2.0,1.0,1.5,-1,,") = .ok sample := by
  have hparse : Jdk.sample.parseDouble (lit "2.0") = some sample.high ∧
      Jdk.sample.parseDouble (lit "1.0") = some sample.low ∧
      Jdk.sample.parseDouble (lit "1.5") = some sample.close ∧
      Jdk.sample.parseInt (lit "-1") = some sample.label := by decide +kernel
  obtain ⟨hhigh, hlow, hclose, hlabel⟩ := hparse
  apply (readers_agree_iff (by rfl) (by rfl)).mpr
  exact ⟨lit "2.0", lit "1.0", lit "1.5", lit "-1", 2, by decide +kernel,
    ⟨hhigh, hlow, hclose, hlabel⟩, by decide +kernel⟩

end CandleStick

end Forex
