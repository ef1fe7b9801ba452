import ForexForest.JavaDouble

/-!
# Decimal text of the platform

The programs turn prices and labels into text with `Double.toString` and
`Integer.toString` and back with `Double.parseDouble` and `Integer.parseInt`.
`Jdk` takes these four conversions as a parameter; a parser answers `none`
where Java throws `NumberFormatException`.  `Jdk.Lawful` is their documented
contract: every value is read back from its own text, which is a field that
stands on one line.

`Jdk.sample` is a platform that meets the contract.  Its integers are printed
as Java prints them; its doubles are printed as Java prints them on the short
table `samplePrices`, and by their bits elsewhere.
-/

namespace Java

/-- The conversions between numbers and text. -/
structure Jdk where
  doubleToString : Double → JString
  parseDouble : JString → Option Double
  intToString : Int32 → JString
  parseInt : JString → Option Int32

/-- What the documentation of the conversions promises. -/
structure Jdk.Lawful (jdk : Jdk) : Prop where
  parse_double : ∀ d, jdk.parseDouble (jdk.doubleToString d) = some d
  double_field : ∀ d, IsField (jdk.doubleToString d)
  double_oneLine : ∀ d, OneLine (jdk.doubleToString d)
  parse_int : ∀ i, jdk.parseInt (jdk.intToString i) = some i
  int_field : ∀ i, IsField (jdk.intToString i)
  int_oneLine : ∀ i, OneLine (jdk.intToString i)

/-- Different integers have different texts, since each is read back from its own.
-/
theorem Jdk.Lawful.intToString_inj {jdk : Jdk} (h : jdk.Lawful) {a b : Int32}
    (hab : jdk.intToString a = jdk.intToString b) : a = b := by
  have hparse := h.parse_int a
  rw [hab, h.parse_int b] at hparse
  exact (Option.some.inj hparse).symm

/-- Different doubles have different texts, for the same reason. -/
theorem Jdk.Lawful.doubleToString_inj {jdk : Jdk} (h : jdk.Lawful) {a b : Double}
    (hab : jdk.doubleToString a = jdk.doubleToString b) : a = b := by
  have hparse := h.parse_double a
  rw [hab, h.parse_double b] at hparse
  exact (Option.some.inj hparse).symm

/-- The decimal digits of a number, most significant first. -/
def digits (n : Nat) : JString :=
  (Nat.toDigits 10 n).map fun c => Fin.ofNat 65536 c.toNat

/-- The number whose decimal digits are given. -/
def ofDigits (s : JString) : Nat :=
  Nat.ofDigitChars 10 (s.map fun c => Char.ofNat c.val) 0

/-- The digits that the library prints lie between `'0'` and `'9'`. -/
theorem digit_range {n : Nat} {d : Char} (hd : d ∈ Nat.toDigits 10 n) :
    48 ≤ d.toNat ∧ d.toNat ≤ 57 := by
  have hdigit := Nat.isDigit_of_mem_toDigits (by decide) (by decide) hd
  simp only [Char.isDigit, Bool.and_eq_true, decide_eq_true_eq] at hdigit
  exact ⟨UInt32.le_iff_toNat_le.mp hdigit.1, UInt32.le_iff_toNat_le.mp hdigit.2⟩

/-- As code units the digits lie in the same range. -/
theorem mem_digits {n : Nat} {c : JChar} (hc : c ∈ digits n) :
    48 ≤ c.val ∧ c.val ≤ 57 := by
  obtain ⟨d, hd, rfl⟩ := List.mem_map.mp hc
  have hrange := digit_range hd
  rw [Fin.val_ofNat, Nat.mod_eq_of_lt (by omega)]
  exact hrange

theorem digits_ne_nil (n : Nat) : digits n ≠ [] := by
  simp [digits, Nat.toDigits_ne_nil]

/-- The digits of a number are read back as that number. -/
theorem ofDigits_digits (n : Nat) : ofDigits (digits n) = n := by
  have hback : (digits n).map (fun c => Char.ofNat c.val) = Nat.toDigits 10 n := by
    rw [digits, List.map_map, List.map_congr_left (g := id), List.map_id]
    intro d hd
    have hrange := digit_range hd
    rw [Function.comp_apply, Fin.val_ofNat, Nat.mod_eq_of_lt (by omega), Char.ofNat_toNat]
    rfl
  rw [ofDigits, hback, Nat.ofDigitChars_ten_toDigits]

/-- `Integer.toString`. -/
def decimalInt (i : Int32) : JString :=
  if i.toInt < 0 then lit "-" ++ digits i.toInt.natAbs else digits i.toInt.natAbs

/-- A non-empty run of ASCII digits as a number. -/
def parseDigits (s : JString) : Option Nat :=
  if s ≠ [] ∧ s.all (fun c => 48 ≤ c.val ∧ c.val ≤ 57) then some (ofDigits s) else none

/-- `Integer.parseInt` on ASCII digits with an optional sign. -/
def parseDecimalInt : JString → Option Int32
  | [] => none
  | c :: rest =>
      let value : Option Int :=
        if c = 45 then (parseDigits rest).map fun n : Nat => -(n : Int)
        else if c = 43 then (parseDigits rest).map fun n : Nat => (n : Int)
        else (parseDigits (c :: rest)).map fun n : Nat => (n : Int)
      value.bind fun n =>
        if -2 ^ 31 ≤ n ∧ n < 2 ^ 31 then some (Int32.ofInt n) else none

/-- The parser accepts the digits of every number and returns it. -/
theorem parseDigits_digits (n : Nat) : parseDigits (digits n) = some n := by
  have hall : (digits n).all (fun c => 48 ≤ c.val ∧ c.val ≤ 57) := by
    rw [List.all_eq_true]
    intro c hc
    simpa using mem_digits hc
  rw [parseDigits, if_pos ⟨digits_ne_nil n, hall⟩, ofDigits_digits]

theorem lit_minus : lit "-" = [45] := by decide

/-- `Integer.parseInt` undoes `Integer.toString`, for negative numbers behind their
sign. The case split is on that sign, as in both definitions. -/
theorem parseDecimalInt_decimalInt (i : Int32) :
    parseDecimalInt (decimalInt i) = some i := by
  have hrange : -2 ^ 31 ≤ i.toInt ∧ i.toInt < 2 ^ 31 := ⟨i.le_toInt, i.toInt_lt⟩
  by_cases hneg : i.toInt < 0
  · have habs : -((i.toInt.natAbs : Nat) : Int) = i.toInt := by omega
    rw [decimalInt, if_pos hneg, lit_minus, List.singleton_append]
    simp only [parseDecimalInt, if_true, parseDigits_digits, Option.map_some,
      Option.bind_some]
    rw [habs, if_pos hrange, Int32.ofInt_toInt]
  · have habs : ((i.toInt.natAbs : Nat) : Int) = i.toInt := by omega
    obtain ⟨c, rest, hdigits⟩ := List.exists_cons_of_ne_nil (digits_ne_nil i.toInt.natAbs)
    have hc : 48 ≤ c.val ∧ c.val ≤ 57 := mem_digits (by rw [hdigits]; exact List.mem_cons_self)
    have hminus : c ≠ 45 := by grind
    have hplus : c ≠ 43 := by grind
    rw [decimalInt, if_neg hneg, hdigits]
    simp only [parseDecimalInt, if_neg hminus, if_neg hplus]
    rw [← hdigits, parseDigits_digits, Option.map_some, Option.bind_some, habs,
      if_pos hrange, Int32.ofInt_toInt]

/-- Characters of decimal text: digits, signs and letters, all above the comma
or equal to the minus sign, so neither a comma nor a line break. -/
theorem isField_of_above {s : JString} (hne : s ≠ []) (h : ∀ c ∈ s, 45 ≤ c.val) :
    IsField s ∧ OneLine s := by
  refine ⟨⟨hne, by grind [comma]⟩, ?_⟩
  intro c hc
  have hval := h c hc
  grind [isLineBreak]

/-- Digits alone make a field that stands on one line. -/
theorem digits_text (n : Nat) : IsField (digits n) ∧ OneLine (digits n) := by
  apply isField_of_above (digits_ne_nil n)
  intro c hc
  grind [mem_digits]

/-- So does the text of an integer, with its sign or without. -/
theorem decimalInt_text (i : Int32) : IsField (decimalInt i) ∧ OneLine (decimalInt i) := by
  unfold decimalInt
  split
  · apply isField_of_above (by simp [digits_ne_nil])
    intro c hc
    rcases List.mem_append.mp hc with hc | hc
    · rw [lit_minus, List.mem_singleton] at hc
      grind
    · grind [mem_digits]
  · exact digits_text _

namespace Double

/-- `1.0`. -/
def one : Double := ⟨false, 0x3ff0000000000000, by decide⟩

/-- `1.5`. -/
def oneAndHalf : Double := ⟨false, 0x3ff8000000000000, by decide⟩

/-- `2.0`. -/
def two : Double := ⟨false, 0x4000000000000000, by decide⟩

/-- `-1.0`. -/
def minusOne : Double := ⟨true, 0x3ff0000000000000, by decide⟩

/-- The prices that `Jdk.sample` prints as Java does. -/
def samplePrices : List (Double × JString) :=
  [(one, lit "1.0"), (oneAndHalf, lit "1.5"), (two, lit "2.0"), (minusOne, lit "-1.0")]

/-- The bits of a double as text, apart from every entry of `samplePrices`. -/
def bitsText (d : Double) : JString :=
  (if d.neg then 110 else 112) :: digits d.mag

/-- The inverse of `bitsText`. -/
def ofBitsText : JString → Option Double
  | [] => none
  | c :: rest =>
      (parseDigits rest).bind fun m =>
        if h : m ≤ infinityBits ∨ (decide (c = 110) = false ∧ m = nanBits) then
          some ⟨decide (c = 110), m, h⟩
        else none

/-- Text of a sample price, or the bits. -/
def sampleText (d : Double) : JString :=
  match samplePrices.find? fun entry => entry.1 = d with
  | some entry => entry.2
  | none => bitsText d

/-- The inverse of `sampleText`. -/
def parseSampleText (s : JString) : Option Double :=
  match samplePrices.find? fun entry => entry.2 = s with
  | some entry => some entry.1
  | none => ofBitsText s

/-- The sign letter and the digits of the magnitude are read back as the double. -/
theorem ofBitsText_bitsText (d : Double) : ofBitsText d.bitsText = some d := by
  obtain ⟨neg, mag, valid⟩ := d
  rw [bitsText, ofBitsText, parseDigits_digits]
  cases neg <;> simpa using valid

/-- The text of the bits begins with a letter, as no text of a sample price does. -/
theorem bitsText_head (d : Double) :
    d.bitsText.head? = some 110 ∨ d.bitsText.head? = some 112 := by
  rw [bitsText]
  cases d.neg <;> simp

/-- No sample price is printed as the bits of another double, and no bits are
printed as a sample price. -/
theorem parseSampleText_sampleText (d : Double) :
    parseSampleText (sampleText d) = some d := by
  unfold sampleText
  split
  · rename_i entry hfind
    have hmem := List.mem_of_find?_eq_some hfind
    have hd : entry.1 = d := by simpa using List.find?_some hfind
    have htable : ∀ e ∈ samplePrices, parseSampleText e.2 = some e.1 := by decide +kernel
    rw [htable entry hmem, hd]
  · have hnone : samplePrices.find? (fun entry => entry.2 = d.bitsText) = none := by
      rw [List.find?_eq_none]
      intro entry hmem htext
      have hhead : ∀ e ∈ samplePrices, e.2.head? ≠ some 110 ∧ e.2.head? ≠ some 112 := by
        decide +kernel
      have htext : entry.2 = d.bitsText := by simpa using htext
      have := hhead entry hmem
      rw [htext] at this
      exact (bitsText_head d).elim this.1 this.2
    rw [parseSampleText, hnone, ofBitsText_bitsText]

/-- Every printed double is a field on one line: the table by inspection, the bits
because they are a letter and digits. -/
theorem sampleText_text (d : Double) : IsField (sampleText d) ∧ OneLine (sampleText d) := by
  have htable : ∀ e ∈ samplePrices, e.2 ≠ [] ∧ e.2.all (fun c => 45 ≤ c.val) := by decide +kernel
  unfold sampleText
  split
  · rename_i entry hfind
    have hentry := htable entry (List.mem_of_find?_eq_some hfind)
    exact isField_of_above hentry.1 (by simpa [List.all_eq_true] using hentry.2)
  · apply isField_of_above (List.cons_ne_nil _ _)
    intro c hc
    rcases List.mem_cons.mp hc with rfl | hc
    · cases d.neg <;> decide
    · grind [mem_digits]

end Double

/-- A platform that prints integers and the sample prices as Java does. -/
def Jdk.sample : Jdk where
  doubleToString := Double.sampleText
  parseDouble := Double.parseSampleText
  intToString := decimalInt
  parseInt := parseDecimalInt

/-- The contract can be met. -/
theorem Jdk.sample_lawful : Jdk.sample.Lawful where
  parse_double := Double.parseSampleText_sampleText
  double_field d := (Double.sampleText_text d).1
  double_oneLine d := (Double.sampleText_text d).2
  parse_int := parseDecimalInt_decimalInt
  int_field i := (decimalInt_text i).1
  int_oneLine i := (decimalInt_text i).2

end Java
