import ForexForest.CandleStick

/-!
# The comma-separated record format

Two encoders write candles as lines: `getFeaturesAndLabel`, for the output of
the data preparation, and `toString`, for the column names of the map-reduce
forest.  Two decoders read them: the tokenizer with the array constructor, and
`split` with the record constructor.

Both encoders write the same six fields and differ in the label and the line
end (`toString_eq`, `getFeaturesAndLabel_eq`); each decoder recovers the six
fields of a joined line (`readRecord_fields`, `ofRecord_fields`), whatever the
non-empty comma-free texts are.
-/

namespace Forex

open Java

namespace CandleStick

/-- A candle whose texts survive a line: the pair and the time are non-empty
and hold no comma and no line break, as every token of a line does. -/
structure Writable (c : CandleStick) : Prop where
  pair_field : IsField c.currencyPair
  pair_oneLine : OneLine c.currencyPair
  time_field : IsField c.time
  time_oneLine : OneLine c.time

/-- The six fields of a line that carries the given label. -/
def fields (jdk : Jdk) (c : CandleStick) (label : Int32) : List JString :=
  [c.currencyPair, c.time, jdk.doubleToString c.high, jdk.doubleToString c.low,
    jdk.doubleToString c.close, jdk.intToString label]

/-- The text of a candle is its six fields, joined by commas. -/
theorem toString_eq (jdk : Jdk) (c : CandleStick) :
    c.toString jdk = joinFields (c.fields jdk c.label) := by
  simp [toString, fields, joinFields, List.intercalate_cons_cons, lit, comma]

/-- So is the line of the data preparation, with the label of the move and a line
end. -/
theorem getFeaturesAndLabel_eq (jdk : Jdk) (c next : CandleStick) :
    c.getFeaturesAndLabel jdk next =
      joinFields (c.fields jdk (c.nextLabel next)) ++ lit "\n" := by
  simp [getFeaturesAndLabel, fields, joinFields, List.intercalate_cons_cons, lit, comma]

variable {jdk : Jdk} (hjdk : jdk.Lawful) {c : CandleStick} (hc : c.Writable)

include hjdk hc

/-- The six fields of a writable candle are non-empty and without commas. -/
theorem isField_of_mem_fields {label : Int32} :
    ∀ s ∈ c.fields jdk label, IsField s := by
  simp only [fields, List.forall_mem_cons]
  exact ⟨hc.pair_field, hc.time_field, hjdk.double_field _, hjdk.double_field _,
    hjdk.double_field _, hjdk.int_field _, List.forall_mem_nil _⟩

/-- None of the six fields breaks the line. -/
theorem oneLine_of_mem_fields (label : Int32) :
    ∀ s ∈ c.fields jdk label, OneLine s := by
  simp only [fields, List.forall_mem_cons]
  exact ⟨hc.pair_oneLine, hc.time_oneLine, hjdk.double_oneLine _, hjdk.double_oneLine _,
    hjdk.double_oneLine _, hjdk.int_oneLine _, List.forall_mem_nil _⟩

/-- The tokenizer and the array constructor recover the candle with the label
that was written. -/
theorem readRecord_fields (label : Int32) :
    readRecord jdk (joinFields (c.fields jdk label)) = .ok (c.withLabel label) := by
  have htokens : tokens (joinFields (c.fields jdk label)) = c.fields jdk label :=
    tokens_joinFields (List.cons_ne_nil _ _) (isField_of_mem_fields hjdk hc)
  rw [readRecord, htokens, fillArray_of_le (by simp [fields]), ok_bind]
  simp [ofFeaturesNLabel, parseDoubleCell, parseIntCell, fields, withLabel,
    hjdk.parse_double, hjdk.parse_int]

/-- `split` and the record constructor recover the same candle. -/
theorem ofRecord_fields (label : Int32) :
    ofRecord jdk (joinFields (c.fields jdk label)) = .ok (c.withLabel label) := by
  have hsplit : split (joinFields (c.fields jdk label)) = c.fields jdk label :=
    split_joinFields (isField_of_mem_fields hjdk hc)
  rw [ofRecord, hsplit]
  simp [element, parseDoubleCell, parseIntCell, fields, withLabel,
    hjdk.parse_double, hjdk.parse_int]

/-- The tokenizing reader gives a candle back from its text. -/
theorem readRecord_toString : readRecord jdk (c.toString jdk) = .ok c := by
  rw [toString_eq, readRecord_fields hjdk hc, withLabel]

/-- The splitting constructor gives it back too. -/
theorem ofRecord_toString : ofRecord jdk (c.toString jdk) = .ok c := by
  rw [toString_eq, ofRecord_fields hjdk hc, withLabel]

/-- A written line, read back without its line end, carries the prices and the
move of the close. -/
theorem readRecord_getFeaturesAndLabel (next : CandleStick) :
    readRecord jdk (readLine (c.getFeaturesAndLabel jdk next)) =
      .ok (c.withLabel (c.nextLabel next)) := by
  have hline := OneLine.joinFields (oneLine_of_mem_fields hjdk hc (c.nextLabel next))
  have hread := readLine_append [] hline
  rw [List.append_nil] at hread
  rw [getFeaturesAndLabel_eq, hread, readRecord_fields hjdk hc]

/-- Different writable candles have different texts. -/
theorem toString_inj {d : CandleStick} (hd : d.Writable)
    (h : c.toString jdk = d.toString jdk) : c = d := by
  have hread := readRecord_toString hjdk hc
  rw [h, readRecord_toString hjdk hd] at hread
  exact (Except.ok.inj hread).symm

omit hjdk hc

/-- A candle read from a line is writable: its pair and its time are tokens, for
a line with fewer than three tokens has no price to parse. -/
theorem Writable.of_readRecord {line : JString} (hline : OneLine line)
    (h : readRecord jdk line = .ok c) : c.Writable := by
  obtain ⟨array, harray, hread⟩ := bind_eq_ok h
  have hcells := fillArray_eq_ok harray
  obtain ⟨high, hhigh, hread⟩ := bind_eq_ok hread
  obtain ⟨low, -, hread⟩ := bind_eq_ok hread
  obtain ⟨close, -, hread⟩ := bind_eq_ok hread
  obtain ⟨label, -, hread⟩ := bind_eq_ok hread
  have hc := Except.ok.inj hread
  rw [hcells 2 (by decide)] at hhigh
  have htokens : ∀ s ∈ tokens line, IsField s ∧ OneLine s :=
    fun s hs => ⟨isField_of_mem_tokens hs, hline.of_mem_tokens hs⟩
  generalize tokens line = toks at hcells hhigh htokens
  match toks with
  | [] => cases hhigh
  | [_] => cases hhigh
  | [_, _] => cases hhigh
  | pair :: time :: _ :: _ =>
      have hpair : c.currencyPair = pair := by
        rw [← hc, hcells 0 (by decide)]
        rfl
      have htime : c.time = time := by
        rw [← hc, hcells 1 (by decide)]
        rfl
      obtain ⟨hpairField, hpairLine⟩ := htokens pair List.mem_cons_self
      obtain ⟨htimeField, htimeLine⟩ :=
        htokens time (List.mem_cons_of_mem _ List.mem_cons_self)
      constructor
      · rwa [hpair]
      · rwa [hpair]
      · rwa [htime]
      · rwa [htime]

/-- The label of a line is the sign of the difference of the closes. -/
theorem nextLabel_eq_sign {next : CandleStick} (hthis : c.close.isFinite)
    (hnext : next.close.isFinite) :
    (c.nextLabel next).toInt =
      (SignType.sign (next.close.toReal - c.close.toReal) : ℤ) := by
  have hup := Double.lt_iff_toReal hthis hnext
  have hdown := Double.lt_iff_toReal hnext hthis
  rcases lt_trichotomy c.close.toReal next.close.toReal with h | h | h
  · rw [sign_pos (sub_pos.mpr h), nextLabel, if_pos (hup.mpr h)]
    rfl
  · have hu : ¬ c.close.lt next.close = true := fun hl => (hup.mp hl).ne h
    have hd : ¬ next.close.lt c.close = true := fun hl => (hdown.mp hl).ne' h
    rw [h, sub_self, sign_zero, nextLabel, if_neg hu, if_neg hd]
    rfl
  · have hu : ¬ c.close.lt next.close = true := fun hl => (hup.mp hl).asymm h
    rw [sign_neg (sub_neg.mpr h), nextLabel, if_neg hu, if_pos (hdown.mpr h)]
    rfl

/-- **CSV round trip.**  The output line of the data preparation gives back the
pair, the time and the prices, with the sign of the move of the close; the text
of a candle gives back the candle through both decoders, so no two candles
share a text. -/
theorem csv_round_trip (hjdk : jdk.Lawful) (hc : c.Writable) (next : CandleStick) :
    (∃ r, readRecord jdk (readLine (c.getFeaturesAndLabel jdk next)) = .ok r ∧
      r.currencyPair = c.currencyPair ∧ r.time = c.time ∧
      r.high = c.high ∧ r.low = c.low ∧ r.close = c.close ∧
      (c.close.isFinite → next.close.isFinite →
        r.label.toInt = (SignType.sign (next.close.toReal - c.close.toReal) : ℤ))) ∧
    readRecord jdk (c.toString jdk) = .ok c ∧
    ofRecord jdk (c.toString jdk) = .ok c ∧
    ∀ d : CandleStick, d.Writable → c.toString jdk = d.toString jdk → c = d := by
  refine ⟨⟨_, readRecord_getFeaturesAndLabel hjdk hc next, rfl, rfl, rfl, rfl, rfl, ?_⟩,
    readRecord_toString hjdk hc, ofRecord_toString hjdk hc, ?_⟩
  · intro hthis hnext
    exact nextLabel_eq_sign hthis hnext
  · intro d hd h
    exact toString_inj hjdk hc hd h

/-- A candle of the prepared data. -/
def sample : CandleStick where
  currencyPair := lit "USD/JPY"
  time := lit "20150803 16:35"
  high := Double.two
  low := Double.one
  close := Double.oneAndHalf
  label := -1

theorem sample_writable : sample.Writable := by
  constructor <;> decide

theorem csv_round_trip_sample :
    sample.toString Jdk.sample = lit "USD/JPY,20150803 16:35,2.0,1.0,1.5,-1" ∧
    readRecord Jdk.sample (sample.toString Jdk.sample) = .ok sample ∧
    ofRecord Jdk.sample (sample.toString Jdk.sample) = .ok sample := by
  have h := csv_round_trip Jdk.sample_lawful sample_writable sample
  exact ⟨by decide +kernel, h.2.1, h.2.2.1⟩

end CandleStick

end Forex
