import ForexForest.CsvRoundTrip
import ForexForest.DigitText
import ForexForest.JavaLists
import ForexForest.LeafPurity

/-!
# The LIBSVM conversion

`toLIBSVMFormat` writes a candle as a line `label 1:time 2:high 3:low 4:close`
for a learner that reads numbers.  The time becomes a number by losing every
character but digits and letters, and then its year and month.

`items_written` decodes a written line; `compareWith_eq_sign` says that the
numbers read compare as the candles do, for two candles of one month.
-/

namespace Forex

open Java

/-- A character of the class `\w`. -/
def isWordChar (c : JChar) : Bool :=
  (48 ≤ c.val && c.val ≤ 57) || (65 ≤ c.val && c.val ≤ 90) || c.val == 95 ||
    (97 ≤ c.val && c.val ≤ 122)

/-- `s.replaceAll("\\W", "")`. -/
def removeNonWord (s : JString) : JString := s.filter isWordChar

/-- `s.substring(beginIndex)`. -/
def substring (s : JString) (beginIndex : Nat) : Except Exception JString :=
  if beginIndex ≤ s.length then .ok (s.drop beginIndex) else .error .stringIndexOutOfBounds

/-- `toLIBSVMFormat`. -/
def CandleStick.toLIBSVMFormat (jdk : Jdk) (this : CandleStick) : Except Exception JString := do
  let timeForLIBSVM := removeNonWord this.time
  let timeOfMonth ← substring timeForLIBSVM 6
  return jdk.intToString (this.label + 1) ++ lit " 1:" ++ timeOfMonth ++
    lit " 2:" ++ jdk.doubleToString this.high ++
    lit " 3:" ++ jdk.doubleToString this.low ++
    lit " 4:" ++ jdk.doubleToString this.close ++ lit "\n"

/-- `DataPrep.main` of the conversion: the records written, in order. -/
def Convert2LIBSVM.main (jdk : Jdk) (shuffle : Shuffle) (lines : List JString) :
    Except Exception (List JString) := do
  let totalInstances ← lines.mapM (CandleStick.readRecord jdk)
  let sampledInstances ← subList (shuffle.apply totalInstances) 0 10000
  sampledInstances.mapM (CandleStick.toLIBSVMFormat jdk)

namespace Libsvm

def space : JChar := 32

def colon : JChar := 58

/-- The items of a line, without its end. -/
def items (line : JString) : List JString := (readLine line).splitOn space

/-- The label that is read from a line. -/
def labelOf (jdk : Jdk) (line : JString) : Option Int32 := (items line).head?.bind jdk.parseInt

/-- The number that an item `key:value` gives to an index. -/
def itemValue (numeric : JString → Option ℝ) (index : Nat) (item : JString) : Option ℝ :=
  match item.splitOn colon with
  | [key, value] => if parseDigits key = some index then numeric value else none
  | _ => none

/-- The number that a line gives to an index. -/
def valueOf (numeric : JString → Option ℝ) (line : JString) (index : Nat) : Option ℝ :=
  (items line).tail.findSome? (itemValue numeric index)

/-- What is documented of the text of numbers, and of reading it as a number:
neither spaces nor colons, doubles read back as themselves, and up to fifteen
digits read as decimals.  A longer text of digits may fall between two doubles,
and is then read as one of the two. -/
structure NumericText (jdk : Jdk) (numeric : JString → Option ℝ) : Prop where
  double_chars : ∀ d, space ∉ jdk.doubleToString d ∧ colon ∉ jdk.doubleToString d
  int_chars : ∀ i, space ∉ jdk.intToString i
  numeric_double : ∀ d, d.isFinite → numeric (jdk.doubleToString d) = some d.toReal
  numeric_digits : ∀ n s, 0 < n → n ≤ 15 → IsDigits n s → numeric s = some (ofDigits s : ℝ)

/-- A time `YYYYMMDD HH:MM`, in its parts. -/
structure TimeText where
  yearMonth : JString
  day : JString
  hour : JString
  minute : JString
  yearMonth_digits : IsDigits 6 yearMonth
  day_digits : IsDigits 2 day
  hour_digits : IsDigits 2 hour
  minute_digits : IsDigits 2 minute

namespace TimeText

/-- The whole text. -/
def text (t : TimeText) : JString :=
  t.yearMonth ++ t.day ++ lit " " ++ t.hour ++ lit ":" ++ t.minute

/-- The digits behind the year and the month. -/
def ofMonth (t : TimeText) : JString := t.day ++ t.hour ++ t.minute

theorem ofMonth_digits (t : TimeText) : IsDigits 6 t.ofMonth :=
  (t.day_digits.append t.hour_digits).append t.minute_digits

/-- Digits are word characters, so none of them is lost. -/
theorem filter_digits {n : Nat} {s : JString} (hs : IsDigits n s) : s.filter isWordChar = s := by
  rw [List.filter_eq_self]
  intro c hc
  have hrange := hs.2 c hc
  simp [isWordChar, hrange]

/-- The separators are lost, and the cut removes the year and the month. -/
theorem substring_text (t : TimeText) : substring (removeNonWord t.text) 6 = .ok t.ofMonth := by
  have hspace : (lit " ").filter isWordChar = [] := by decide
  have hcolon : (lit ":").filter isWordChar = [] := by decide
  have hstrip : removeNonWord t.text = t.yearMonth ++ t.ofMonth := by
    simp only [removeNonWord, text, ofMonth, List.filter_append, hspace, hcolon,
      filter_digits t.yearMonth_digits, filter_digits t.day_digits, filter_digits t.hour_digits,
      filter_digits t.minute_digits, List.nil_append, List.append_assoc]
  have hlength := t.yearMonth_digits.1
  rw [substring, hstrip, if_pos (by rw [List.length_append, hlength]; omega),
    List.drop_left' hlength]

/-- Within a month the separators do not matter either. -/
theorem compareTo_text {s t : TimeText} (hmonth : s.yearMonth = t.yearMonth) :
    compareTo s.text t.text = compareTo s.ofMonth t.ofMonth := by
  have hday : s.day.length = t.day.length := by rw [s.day_digits.1, t.day_digits.1]
  have hhour : s.hour.length = t.hour.length := by rw [s.hour_digits.1, t.hour_digits.1]
  simp only [text, ofMonth, hmonth, List.append_assoc, compareTo_append rfl,
    compareTo_append hday, compareTo_append hhour, if_true]

end TimeText

/-- A run of digits holds neither a space nor a colon. -/
theorem notMem_digits {n : Nat} {s : JString} (hs : IsDigits n s) : space ∉ s ∧ colon ∉ s := by
  constructor
  · intro h
    exact absurd (hs.2 space h).1 (by decide)
  · intro h
    exact absurd (hs.2 colon h).2 (by decide)

/-- A run of digits does not break the line. -/
theorem oneLine_digits {n : Nat} {s : JString} (hs : IsDigits n s) : OneLine s := by
  intro c hc
  have hrange := hs.2 c hc
  grind [isLineBreak]

theorem isDigits_digits (n : Nat) : IsDigits (digits n).length (digits n) :=
  ⟨rfl, fun _ hc => mem_digits hc⟩

/-- An item `key:text`. -/
def item (key : Nat) (text : JString) : JString := digits key ++ colon :: text

section Decode

variable {jdk : Jdk} {numeric : JString → Option ℝ}

/-- An item is read at its key. -/
theorem itemValue_item {key : Nat} {text : JString} (htext : colon ∉ text) (index : Nat) :
    itemValue numeric index (item key text) = if key = index then numeric text else none := by
  have hparts : (item key text).splitOn colon = [digits key, text] := by
    have hjoin : item key text = [colon].intercalate [digits key, text] := by
      simp [item, List.intercalate_cons_cons]
    rw [hjoin, List.splitOn_intercalate colon _ (List.cons_ne_nil _ _)]
    intro part hpart
    rcases List.mem_cons.mp hpart with rfl | hpart
    · exact (notMem_digits (isDigits_digits key)).2
    · rwa [List.mem_singleton.mp hpart]
  rw [itemValue, hparts]
  simp only [parseDigits_digits, Option.some_inj]

/-- The items of the line of a candle. -/
def writtenItems (jdk : Jdk) (cs : CandleStick) (t : TimeText) : List JString :=
  jdk.intToString (cs.label + 1) ::
    [item 1 t.ofMonth, item 2 (jdk.doubleToString cs.high), item 3 (jdk.doubleToString cs.low),
      item 4 (jdk.doubleToString cs.close)]

/-- The line of a candle. -/
def writtenLine (jdk : Jdk) (cs : CandleStick) (t : TimeText) : JString :=
  [space].intercalate (writtenItems jdk cs t) ++ lit "\n"

/-- The line that is written for a candle with a time of the format. -/
theorem toLIBSVMFormat_eq {cs : CandleStick} {t : TimeText} (htime : cs.time = t.text) :
    cs.toLIBSVMFormat jdk = .ok (writtenLine jdk cs t) := by
  have hkeys : lit " 1:" = [space] ++ digits 1 ++ [colon] ∧
      lit " 2:" = [space] ++ digits 2 ++ [colon] ∧ lit " 3:" = [space] ++ digits 3 ++ [colon] ∧
      lit " 4:" = [space] ++ digits 4 ++ [colon] := by decide +kernel
  obtain ⟨h1, h2, h3, h4⟩ := hkeys
  rw [CandleStick.toLIBSVMFormat, htime, t.substring_text, ok_bind, h1, h2, h3, h4]
  simp [writtenLine, writtenItems, item, List.intercalate_cons_cons, pure, Except.pure]

/-- A written line is read back item by item. -/
theorem items_written (hjdk : jdk.Lawful) (hnumeric : NumericText jdk numeric) (cs : CandleStick)
    (t : TimeText) : items (writtenLine jdk cs t) = writtenItems jdk cs t := by
  have hitem : ∀ key text, OneLine text ∧ space ∉ text →
      OneLine (item key text) ∧ space ∉ item key text := by
    intro key text htext
    have hkey := isDigits_digits key
    have hcolon : OneLine [colon] ∧ space ∉ [colon] := by
      constructor <;> decide
    refine ⟨(oneLine_digits hkey).append (hcolon.1.append htext.1), ?_⟩
    simp only [item, List.mem_append, List.mem_cons, not_or]
    exact ⟨(notMem_digits hkey).1, by decide, htext.2⟩
  have hdouble : ∀ d, OneLine (jdk.doubleToString d) ∧ space ∉ jdk.doubleToString d :=
    fun d => ⟨hjdk.double_oneLine d, (hnumeric.double_chars d).1⟩
  have hitems : ∀ s ∈ writtenItems jdk cs t, OneLine s ∧ space ∉ s := by
    simp only [writtenItems, List.forall_mem_cons]
    exact ⟨⟨hjdk.int_oneLine _, hnumeric.int_chars _⟩,
      hitem 1 _ ⟨oneLine_digits t.ofMonth_digits, (notMem_digits t.ofMonth_digits).1⟩,
      hitem 2 _ (hdouble _), hitem 3 _ (hdouble _), hitem 4 _ (hdouble _), List.forall_mem_nil _⟩
  have hspace : OneLine [space] := by decide
  have hline := hspace.intercalate fun s hs => (hitems s hs).1
  have hread := readLine_append [] hline
  rw [List.append_nil] at hread
  rw [items, writtenLine, hread, List.splitOn_intercalate space (fun s hs => (hitems s hs).2)
    (List.cons_ne_nil _ _)]

/-- A candle whose time has the given year and month, with prices and a label of
the prepared data. -/
structure OfMonth (yearMonth : JString) (cs : CandleStick) : Prop where
  time : ∃ t : TimeText, t.yearMonth = yearMonth ∧ cs.time = t.text
  high : cs.high.IsPrice
  low : cs.low.IsPrice
  close : cs.close.IsPrice
  label : IsLabel cs.label

/-- The number that a candle has for a feature. -/
noncomputable def featureValue (cs : CandleStick) (t : TimeText) (k : Nat) : ℝ :=
  if k = 0 then ofDigits t.ofMonth
  else if k = 1 then cs.high.toReal
  else if k = 2 then cs.low.toReal
  else cs.close.toReal

variable {yearMonth : JString} {a b cs : CandleStick} {s t : TimeText}

/-- The numbers of a candle are read from its line. -/
theorem valueOf_written (hjdk : jdk.Lawful) (hnumeric : NumericText jdk numeric)
    (hcs : OfMonth yearMonth cs) {k : Nat} (hk : k < 4) :
    valueOf numeric (writtenLine jdk cs t) (k + 1) = some (featureValue cs t k) := by
  have htime : numeric t.ofMonth = some (ofDigits t.ofMonth : ℝ) :=
    hnumeric.numeric_digits 6 _ (by omega) (by omega) t.ofMonth_digits
  have hhigh := hnumeric.numeric_double cs.high hcs.high.finite
  have hlow := hnumeric.numeric_double cs.low hcs.low.finite
  have hclose := hnumeric.numeric_double cs.close hcs.close.finite
  have hitem : ∀ key text value, colon ∉ text → numeric text = some value →
      itemValue numeric (k + 1) (item key text) = if key = k + 1 then some value else none := by
    intro key text value htext hvalue
    rw [itemValue_item htext, hvalue]
  have h1 := hitem 1 _ _ (notMem_digits t.ofMonth_digits).2 htime
  have h2 := hitem 2 _ _ (hnumeric.double_chars _).2 hhigh
  have h3 := hitem 3 _ _ (hnumeric.double_chars _).2 hlow
  have h4 := hitem 4 _ _ (hnumeric.double_chars _).2 hclose
  rw [valueOf, items_written hjdk hnumeric, writtenItems, List.tail_cons]
  simp only [List.findSome?_cons, h1, h2, h3, h4]
  interval_cases k
  · rfl
  · rfl
  · rfl
  · rfl

/-- Candles of one month compare as their numbers. -/
theorem compareWith_eq_sign (ha : OfMonth yearMonth a) (hb : OfMonth yearMonth b)
    (hs : a.time = s.text) (ht : b.time = t.text) (hmonth : s.yearMonth = t.yearMonth) {k : Nat}
    (hk : k < 4) :
    SignType.sign (a.compareWith b k) =
      SignType.sign (featureValue a s k - featureValue b t k) := by
  interval_cases k
  · change SignType.sign (compareTo a.time b.time) = _
    rw [hs, ht, TimeText.compareTo_text hmonth]
    exact sign_compareTo_digits s.ofMonth_digits t.ofMonth_digits
  · exact Double.sign_compareTo_toReal ha.high hb.high
  · exact Double.sign_compareTo_toReal ha.low hb.low
  · exact Double.sign_compareTo_toReal ha.close hb.close

/-- The label of a candle is read from its line, one higher. -/
theorem labelOf_written (hjdk : jdk.Lawful) (hnumeric : NumericText jdk numeric) :
    labelOf jdk (writtenLine jdk cs t) = some (cs.label + 1) := by
  rw [labelOf, items_written hjdk hnumeric, writtenItems, List.head?_cons]
  exact hjdk.parse_int _

/-- Equal lines are of candles with equal times, prices and labels. -/
theorem eq_of_line (hjdk : jdk.Lawful) (hnumeric : NumericText jdk numeric)
    (hs : a.time = s.text) (ht : b.time = t.text) (hmonth : s.yearMonth = t.yearMonth)
    (hline : writtenLine jdk a s = writtenLine jdk b t) :
    a.time = b.time ∧ a.high = b.high ∧ a.low = b.low ∧ a.close = b.close ∧
      a.label = b.label := by
  have hitems := congrArg items hline
  rw [items_written hjdk hnumeric, items_written hjdk hnumeric] at hitems
  simp only [writtenItems, item, List.cons.injEq, List.append_cancel_left_eq, true_and,
    and_true] at hitems
  obtain ⟨hlabel, htime, hhigh, hlow, hclose⟩ := hitems
  refine ⟨?_, hjdk.doubleToString_inj hhigh, hjdk.doubleToString_inj hlow,
    hjdk.doubleToString_inj hclose, ?_⟩
  · rw [← compareTo_eq_zero_iff, hs, ht, TimeText.compareTo_text hmonth, htime]
    exact compareTo_eq_zero_iff.mpr rfl
  · have hsum := hjdk.intToString_inj hlabel
    exact (Int32.add_left_inj 1).mp hsum

/-- What a learner with thresholds sees of two candles in their lines: the order
of the numbers is that of the features, labels from 0 to 2 are equal as the
labels are, and a line determines the time, the prices and the label. -/
structure SeenAlike (jdk : Jdk) (numeric : JString → Option ℝ) (a b : CandleStick)
    (lineOfA lineOfB : JString) : Prop where
  features : ∀ k < 4, ∃ x y, valueOf numeric lineOfA (k + 1) = some x ∧
    valueOf numeric lineOfB (k + 1) = some y ∧
    SignType.sign (a.compareWith b k) = SignType.sign (x - y)
  labels : ∃ x y, labelOf jdk lineOfA = some x ∧ labelOf jdk lineOfB = some y ∧
    (x = 0 ∨ x = 1 ∨ x = 2) ∧ (y = 0 ∨ y = 1 ∨ y = 2) ∧ (x = y ↔ a.label = b.label)
  determined : lineOfA = lineOfB → a.time = b.time ∧ a.high = b.high ∧ a.low = b.low ∧
    a.close = b.close ∧ a.label = b.label

/-- The lines of two candles of one month show them alike. -/
theorem seenAlike_written (hjdk : jdk.Lawful) (hnumeric : NumericText jdk numeric)
    (ha : OfMonth yearMonth a) (hb : OfMonth yearMonth b) (hs : a.time = s.text)
    (ht : b.time = t.text) (hmonth : s.yearMonth = t.yearMonth) :
    SeenAlike jdk numeric a b (writtenLine jdk a s) (writtenLine jdk b t) := by
  have hlabel : ∀ {label : Int32}, IsLabel label →
      label + 1 = 0 ∨ label + 1 = 1 ∨ label + 1 = 2 := by
    intro label hlabel
    obtain rfl | rfl | rfl := hlabel
    · exact Or.inl rfl
    · exact Or.inr (Or.inl rfl)
    · exact Or.inr (Or.inr rfl)
  refine ⟨fun k hk => ?_, ?_, ?_⟩
  · exact ⟨_, _, valueOf_written hjdk hnumeric ha hk, valueOf_written hjdk hnumeric hb hk,
      compareWith_eq_sign ha hb hs ht hmonth hk⟩
  · exact ⟨_, _, labelOf_written hjdk hnumeric, labelOf_written hjdk hnumeric, hlabel ha.label,
      hlabel hb.label, Int32.add_left_inj 1⟩
  · exact eq_of_line hjdk hnumeric hs ht hmonth

/-- Every two lines of a converted one-month file show two of its candles
alike. -/
theorem main_seenAlike (hjdk : jdk.Lawful) (hnumeric : NumericText jdk numeric)
    {shuffle : Shuffle} {lines written : List JString} {totalInstances : List CandleStick}
    (hread : lines.mapM (CandleStick.readRecord jdk) = .ok totalInstances)
    (hmonth : ∀ cs ∈ totalInstances, OfMonth yearMonth cs)
    (h : Convert2LIBSVM.main jdk shuffle lines = .ok written) :
    written.length = 10000 ∧ ∀ x ∈ written, ∀ y ∈ written, ∃ a ∈ totalInstances,
      ∃ b ∈ totalInstances, a.toLIBSVMFormat jdk = .ok x ∧ b.toLIBSVMFormat jdk = .ok y ∧
        SeenAlike jdk numeric a b x y := by
  rw [Convert2LIBSVM.main, hread, ok_bind] at h
  obtain ⟨sampledInstances, hsampled, hwritten⟩ := bind_eq_ok h
  obtain ⟨hsize, rfl⟩ := subList_eq_ok hsampled
  have hrounds := forall₂_of_mapM hwritten
  have hcandle : ∀ x ∈ written, ∃ cs ∈ totalInstances, cs.toLIBSVMFormat jdk = .ok x := by
    intro x hx
    obtain ⟨cs, hcs, hline⟩ := exists_of_forall₂ hrounds hx
    exact ⟨cs, (shuffle.apply_perm totalInstances).mem_iff.mp
      (List.mem_of_mem_take (List.mem_of_mem_drop hcs)), hline⟩
  constructor
  · rw [← hrounds.length_eq, List.length_drop, List.length_take]
    change min 10000 _ - 0 = 10000
    have hlimit : ((10000 : Int32).toInt : ℤ) = 10000 := by decide
    omega
  · intro x hx y hy
    obtain ⟨a, haMem, hxLine⟩ := hcandle x hx
    obtain ⟨b, hbMem, hyLine⟩ := hcandle y hy
    have ha := hmonth a haMem
    have hb := hmonth b hbMem
    obtain ⟨s, hsMonth, hs⟩ := ha.time
    obtain ⟨t, htMonth, ht⟩ := hb.time
    obtain rfl := Except.ok.inj ((toLIBSVMFormat_eq hs).symm.trans hxLine)
    obtain rfl := Except.ok.inj ((toLIBSVMFormat_eq ht).symm.trans hyLine)
    exact ⟨a, haMem, b, hbMem, hxLine, hyLine,
      seenAlike_written hjdk hnumeric ha hb hs ht (hsMonth.trans htMonth.symm)⟩

/-- **The conversion keeps what thresholds see.**  Any two candles of one month
are written, and their lines show them alike. -/
theorem toLIBSVMFormat_seenAlike (hjdk : jdk.Lawful) (hnumeric : NumericText jdk numeric)
    (ha : OfMonth yearMonth a) (hb : OfMonth yearMonth b) :
    ∃ lineOfA lineOfB, a.toLIBSVMFormat jdk = .ok lineOfA ∧ b.toLIBSVMFormat jdk = .ok lineOfB ∧
      SeenAlike jdk numeric a b lineOfA lineOfB := by
  obtain ⟨s, hsMonth, hs⟩ := ha.time
  obtain ⟨t, htMonth, ht⟩ := hb.time
  exact ⟨_, _, toLIBSVMFormat_eq hs, toLIBSVMFormat_eq ht,
    seenAlike_written hjdk hnumeric ha hb hs ht (hsMonth.trans htMonth.symm)⟩

end Decode

section Sample

/-- Reading a number on the sample platform. -/
noncomputable def sampleNumeric (s : JString) : Option ℝ :=
  match parseDigits s with
  | some n => some n
  | none => (Double.parseSampleText s).map Double.toReal

/-- A text with a character other than the digits in front is no number. -/
theorem parseDigits_cons {c : JChar} (hc : 57 < c.val) (s : JString) :
    parseDigits (c :: s) = none := by
  have hall : ¬ (c :: s).all (fun c => 48 ≤ c.val ∧ c.val ≤ 57) := by
    simp only [List.all_cons, Bool.and_eq_true, decide_eq_true_eq]
    omega
  exact if_neg fun h => hall h.2

/-- The sample platform prints doubles with letters or points, and without
spaces and colons. -/
theorem sampleText_chars (d : Double) : space ∉ Double.sampleText d ∧
    colon ∉ Double.sampleText d ∧ parseDigits (Double.sampleText d) = none := by
  have htable : ∀ e ∈ Double.samplePrices,
      space ∉ e.2 ∧ colon ∉ e.2 ∧ parseDigits e.2 = none := by decide +kernel
  unfold Double.sampleText
  split
  · rename_i entry hfind
    exact htable entry (List.mem_of_find?_eq_some hfind)
  · obtain ⟨hspace, hcolon⟩ := notMem_digits (isDigits_digits d.mag)
    rw [Double.bitsText]
    simp only [List.mem_cons, not_or]
    cases d.neg with
    | true => exact ⟨⟨by decide, hspace⟩, ⟨by decide, hcolon⟩, parseDigits_cons (by decide) _⟩
    | false => exact ⟨⟨by decide, hspace⟩, ⟨by decide, hcolon⟩, parseDigits_cons (by decide) _⟩

/-- The printed labels of the sample platform hold no space. -/
theorem decimalInt_chars (i : Int32) : space ∉ decimalInt i := by
  have hdigits := (notMem_digits (isDigits_digits i.toInt.natAbs)).1
  unfold decimalInt
  split
  · rw [lit_minus, List.singleton_append, List.mem_cons, not_or]
    exact ⟨by decide, hdigits⟩
  · exact hdigits

/-- What is documented can be met. -/
theorem sample_numericText : NumericText Jdk.sample sampleNumeric where
  double_chars d := ⟨(sampleText_chars d).1, (sampleText_chars d).2.1⟩
  int_chars := decimalInt_chars
  numeric_double := by
    intro d _
    change sampleNumeric (Double.sampleText d) = _
    rw [sampleNumeric, (sampleText_chars d).2.2]
    simp only [Double.parseSampleText_sampleText, Option.map_some]
  numeric_digits := by
    intro n s hn _ hs
    have hne : s ≠ [] := by
      rintro rfl
      exact hn.ne hs.1
    have hall : s.all (fun c => 48 ≤ c.val ∧ c.val ≤ 57) := by
      rw [List.all_eq_true]
      intro c hc
      simpa using hs.2 c hc
    simp only [sampleNumeric, parseDigits, if_pos (And.intro hne hall)]

/-- A record of the sample platform, at a minute of the third of August. -/
def recordAt (hour minute : JString) : CandleStick :=
  { CandleStick.sample with time := lit "20150803 " ++ hour ++ lit ":" ++ minute }

theorem recordAt_ofMonth {hour minute : JString} (hhour : IsDigits 2 hour)
    (hminute : IsDigits 2 minute) : OfMonth (lit "201508") (recordAt hour minute) where
  time := by
    have htext : lit "20150803 " = lit "201508" ++ lit "03" ++ lit " " := by decide
    refine ⟨⟨lit "201508", lit "03", hour, minute, by decide +kernel, by decide +kernel, hhour,
      hminute⟩, rfl, ?_⟩
    rw [recordAt, htext]
    rfl
  high := Double.IsPrice.mk (d := Double.two) (by decide) (by decide)
  low := Double.IsPrice.mk (d := Double.one) (by decide) (by decide)
  close := Double.IsPrice.mk (d := Double.oneAndHalf) (by decide) (by decide)
  label := Or.inl (rfl : (-1 : Int32) = -1)

/-- Two records of one day, whose times differ behind a leading zero. -/
theorem toLIBSVMFormat_seenAlike_pair :
    ∃ lineOfA lineOfB,
      (recordAt (lit "09") (lit "35")).toLIBSVMFormat Jdk.sample = .ok lineOfA ∧
      (recordAt (lit "16") (lit "05")).toLIBSVMFormat Jdk.sample = .ok lineOfB ∧
      SeenAlike Jdk.sample sampleNumeric (recordAt (lit "09") (lit "35"))
        (recordAt (lit "16") (lit "05")) lineOfA lineOfB :=
  toLIBSVMFormat_seenAlike Jdk.sample_lawful sample_numericText
    (recordAt_ofMonth (by decide +kernel) (by decide +kernel))
    (recordAt_ofMonth (by decide +kernel) (by decide +kernel))

end Sample

end Libsvm

end Forex
