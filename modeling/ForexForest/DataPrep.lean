import ForexForest.CandleStick

/-!
# The data preparation program

`DataPrep.main` reads tick lines and writes candle records.  Its loop carries
the current minute, the records that hold the close, high and low price of that
minute, the two running extrema, the previous candle and what has been written.

A round of the loop has three parts, each of which can throw: the line is
tokenized into a `String[4]`; a change of the minute closes the current block,
which builds its candle and writes the previous one; the tick is counted.
Every write is flushed at once, so the lines written before an exception stay
written.
-/

namespace Forex

open Java

namespace DataPrep

/-- The variables of the loop of `main`, with the lines flushed so far. -/
structure Loop where
  timeSlot : Option JString
  closePrice : StringArray 4
  highPrice : StringArray 4
  lowPrice : StringArray 4
  localMax : Double
  localMin : Double
  prev : Option CandleStick
  written : List JString

/-- The variables before the first line. -/
def Loop.start : Loop where
  timeSlot := none
  closePrice := emptyArray 4
  highPrice := emptyArray 4
  lowPrice := emptyArray 4
  localMax := Double.MIN_VALUE
  localMin := Double.MAX_VALUE
  prev := none
  written := []

/-- `curPrice[1].substring(0, 14)`. -/
def slotOf (curPrice : StringArray 4) : Except Exception JString :=
  match CandleStick.timeCell curPrice with
  | none => .error .nullPointer
  | some time =>
      if time.length < 14 then .error .stringIndexOutOfBounds else .ok (time.take 14)

/-- The body of the `if` at the first tick of a new minute `slot`: the candle of
the minute `timeSlot` is built, the previous candle is written with its label,
and the block variables are reset. -/
def closeBlock (jdk : Jdk) (st : Loop) (timeSlot slot : JString) : Except Exception Loop := do
  let cur ← CandleStick.ofRecords jdk timeSlot st.highPrice st.lowPrice st.closePrice
  return {
    timeSlot := some slot
    closePrice := emptyArray 4
    highPrice := emptyArray 4
    lowPrice := emptyArray 4
    localMax := Double.MIN_VALUE
    localMin := Double.MAX_VALUE
    prev := some cur
    written :=
      match st.prev with
      | none => st.written
      | some prev => st.written ++ [prev.getFeaturesAndLabel jdk cur] }

/-- The two tests on the minute of the current tick. -/
def enterBlock (jdk : Jdk) (st : Loop) (curPrice : StringArray 4) : Except Exception Loop := do
  let slot ← slotOf curPrice
  match st.timeSlot with
  | none => return { st with timeSlot := some slot }
  | some timeSlot => if slot = timeSlot then return st else closeBlock jdk st timeSlot slot

/-- The update of the extrema and of the close by the current tick. -/
def countTick (jdk : Jdk) (st : Loop) (curPrice : StringArray 4) : Except Exception Loop := do
  let curVal ← parseDoubleCell jdk (CandleStick.bidCell curPrice)
  let st := if st.localMax.lt curVal then
    { st with highPrice := curPrice, localMax := curVal } else st
  let st := if curVal.lt st.localMin then
    { st with lowPrice := curPrice, localMin := curVal } else st
  return { st with closePrice := curPrice }

/-- The lines written by a run, and the exception that ended it, if any. -/
structure Outcome where
  written : List JString
  exception : Option Exception
deriving DecidableEq

/-- The loop of `main` over the remaining lines of the input. -/
def loop (jdk : Jdk) (st : Loop) : List JString → Outcome
  | [] => ⟨st.written, none⟩
  | thisLine :: rest =>
      match fillArray 4 (tokens thisLine) with
      | .error e => ⟨st.written, some e⟩
      | .ok curPrice =>
          match enterBlock jdk st curPrice with
          | .error e => ⟨st.written, some e⟩
          | .ok entered =>
              match countTick jdk entered curPrice with
              | .error e => ⟨entered.written, some e⟩
              | .ok counted => loop jdk counted rest

/-- `DataPrep.main` on the lines of the input file. -/
def main (jdk : Jdk) (lines : List JString) : Outcome :=
  loop jdk Loop.start lines

end DataPrep

end Forex
