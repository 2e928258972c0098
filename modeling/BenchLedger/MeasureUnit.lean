import BenchLedger.Text.Blank

/-!
Units of measurements. A unit is known or is kept as its text; known units have one canonical text,
and a unit says which direction of change is an improvement.
-/

namespace BenchLedger

inductive MeasureUnit where
  | nanosecondsPerIteration
  | nanoseconds
  | microseconds
  | milliseconds
  | seconds
  | bytes
  | operationsPerSecond
  | other (text : String)
  deriving DecidableEq, Repr, Inhabited

inductive Direction where
  | lowerIsBetter
  | higherIsBetter
  deriving DecidableEq, Repr

def Direction.name : Direction → String
  | .lowerIsBetter => "lower_is_better"
  | .higherIsBetter => "higher_is_better"

namespace MeasureUnit

def text : MeasureUnit → String
  | nanosecondsPerIteration => "ns/iter"
  | nanoseconds => "ns"
  | microseconds => "us"
  | milliseconds => "ms"
  | seconds => "s"
  | bytes => "bytes"
  | operationsPerSecond => "ops/s"
  | other text => text

-- The spellings of the known units; some units have two.
def spellings : List (String × MeasureUnit) := [
  ("ns/iter", nanosecondsPerIteration),
  ("ns", nanoseconds),
  ("us", microseconds),
  ("µs", microseconds),
  ("ms", milliseconds),
  ("s", seconds),
  ("bytes", bytes),
  ("B", bytes),
  ("ops/s", operationsPerSecond),
  ("ops/sec", operationsPerSecond)]

/-- Blanks around a unit do not count, and a blank text is no unit. -/
def read? (s : String) : Option MeasureUnit :=
  let trimmed := Text.trim s
  if trimmed = "" then none
  else some ((spellings.lookup trimmed).getD (other trimmed))

def blankMessage : String := "unit must not be empty"

-- More per second is better; of anything else less is better.
def direction : MeasureUnit → Direction
  | operationsPerSecond => .higherIsBetter
  | other text =>
    if Text.endsWith text "/s" || Text.endsWith text "/sec" then .higherIsBetter
    else .lowerIsBetter
  | _ => .lowerIsBetter

end MeasureUnit

end BenchLedger
