import ForexForest.JdkText

/-!
# Candles

A `CandleStick` is one minute of bid prices: its currency pair, its time, the
high, low and close price, and the label of the next move of the close (`1`
rise, `-1` drop, `0` no change).  The four learner projects and the data
preparation share this class; the projects differ in the constructors they
keep, which are all modelled here.

A constructor that reads a `null` cell fails before the candle exists, and the
arrays it reads are filled from the left, so a candle has no `null` field.
-/

namespace Forex

open Java

/-- One candle. -/
structure CandleStick where
  currencyPair : JString
  time : JString
  high : Double
  low : Double
  close : Double
  label : Int32
deriving DecidableEq

/-- `Double.parseDouble` of an array cell. -/
def parseDoubleCell (jdk : Jdk) : Option JString → Except Exception Double
  | none => .error .nullPointer
  | some s => (jdk.parseDouble s).elim (.error .numberFormat) .ok

/-- `Integer.parseInt` of an array cell; it reports `null` as a bad format. -/
def parseIntCell (jdk : Jdk) : Option JString → Except Exception Int32
  | none => .error .numberFormat
  | some s => (jdk.parseInt s).elim (.error .numberFormat) .ok

namespace CandleStick

/-- `CandleStick(String[] featuresNLabel)`. -/
def ofFeaturesNLabel (jdk : Jdk) (featuresNLabel : StringArray 6) :
    Except Exception CandleStick := do
  let high ← parseDoubleCell jdk featuresNLabel[2]
  let low ← parseDoubleCell jdk featuresNLabel[3]
  let close ← parseDoubleCell jdk featuresNLabel[4]
  let label ← parseIntCell jdk featuresNLabel[5]
  return {
    currencyPair := featuresNLabel[0].getD (lit "null")
    time := featuresNLabel[1].getD (lit "null")
    high, low, close, label }

/-- One round of the reading loops: tokenize a line into a `String[6]` and
build the candle. -/
def readRecord (jdk : Jdk) (line : JString) : Except Exception CandleStick := do
  let featuresNLabel ← fillArray 6 (tokens line)
  ofFeaturesNLabel jdk featuresNLabel

/-- A cell of the array that `split` returns. -/
def element (elements : List JString) (i : Nat) : Except Exception JString :=
  elements[i]?.elim (.error .arrayIndexOutOfBounds) .ok

/-- `CandleStick(String record)`. -/
def ofRecord (jdk : Jdk) (record : JString) : Except Exception CandleStick := do
  let elements := split record
  let currencyPair ← element elements 0
  let time ← element elements 1
  let high ← parseDoubleCell jdk (some (← element elements 2))
  let low ← parseDoubleCell jdk (some (← element elements 3))
  let close ← parseDoubleCell jdk (some (← element elements 4))
  let label ← parseIntCell jdk (some (← element elements 5))
  return { currencyPair, time, high, low, close, label }

/-- The cells of a price record: `[0]` pair, `[1]` time, `[2]` bid. -/
abbrev pairCell (price : StringArray 4) : Option JString := price[0]

abbrev timeCell (price : StringArray 4) : Option JString := price[1]

abbrev bidCell (price : StringArray 4) : Option JString := price[2]

/-- `CandleStick(String time, String[] high, String[] low, String[] close)`. -/
def ofRecords (jdk : Jdk) (time : JString) (high low close : StringArray 4) :
    Except Exception CandleStick := do
  let highBid ← parseDoubleCell jdk (bidCell high)
  let lowBid ← parseDoubleCell jdk (bidCell low)
  let closeBid ← parseDoubleCell jdk (bidCell close)
  return {
    currencyPair := (pairCell high).getD (lit "null")
    time, high := highBid, low := lowBid, close := closeBid, label := 0 }

/-- The label that `getFeaturesAndLabel` appends: the move of the close. -/
def nextLabel (this next : CandleStick) : Int32 :=
  if this.close.lt next.close then 1
  else if next.close.lt this.close then -1
  else 0

/-- `getFeaturesAndLabel`: one output line of the data preparation. -/
def getFeaturesAndLabel (jdk : Jdk) (this next : CandleStick) : JString :=
  this.currencyPair ++ lit "," ++ this.time ++ lit "," ++
    jdk.doubleToString this.high ++ lit "," ++
    jdk.doubleToString this.low ++ lit "," ++
    jdk.doubleToString this.close ++ lit "," ++
    jdk.intToString (this.nextLabel next) ++ lit "\n"

/-- `toString`. -/
def toString (jdk : Jdk) (this : CandleStick) : JString :=
  this.currencyPair ++ lit "," ++ this.time ++ lit "," ++
    jdk.doubleToString this.high ++ lit "," ++
    jdk.doubleToString this.low ++ lit "," ++
    jdk.doubleToString this.close ++ lit "," ++
    jdk.intToString this.label

/-- `CandleStickTimeComparator`. -/
def timeComparator : Comparator CandleStick := Comparator.string.comap time

/-- `CandleStickHighPriceComparator`. -/
def highPriceComparator : Comparator CandleStick := Double.comparator.comap high

/-- `CandleStickLowPriceComparator`. -/
def lowPriceComparator : Comparator CandleStick := Double.comparator.comap low

/-- `CandleStickClosePriceComparator`. -/
def closePriceComparator : Comparator CandleStick := Double.comparator.comap close

/-- `compareWith`: 0 time, 1 high, 2 low, 3 close bid price; any other index is
reported on the error stream and compares equal. -/
def compareWith (this toCmp : CandleStick) (testCondition : Int) : Int :=
  if testCondition = 0 then compareTo this.time toCmp.time
  else if testCondition = 1 then this.high.compareTo toCmp.high
  else if testCondition = 2 then this.low.compareTo toCmp.low
  else if testCondition = 3 then this.close.compareTo toCmp.close
  else 0

/-- `compareWith` on a fixed feature, as a comparator. -/
def featureComparator (feature : Int) : Comparator CandleStick where
  compare a b := a.compareWith b feature
  swap a b := by
    have ht := timeComparator.swap a b
    have hh := highPriceComparator.swap a b
    have hl := lowPriceComparator.swap a b
    have hc := closePriceComparator.swap a b
    unfold compareWith
    split_ifs
    · exact ht
    · exact hh
    · exact hl
    · exact hc
    · simp
  trans a b c := by
    have ht := timeComparator.trans a b c
    have hh := highPriceComparator.trans a b c
    have hl := lowPriceComparator.trans a b c
    have hc := closePriceComparator.trans a b c
    unfold compareWith
    split_ifs
    · exact ht
    · exact hh
    · exact hl
    · exact hc
    · simp

/-- The candle with another label: no comparator sees the difference. -/
def withLabel (this : CandleStick) (label : Int32) : CandleStick :=
  { this with label }

end CandleStick

end Forex
