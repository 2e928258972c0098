import BenchLedger.Run

/-!
Files of runs: a JSON text that holds one run or a list of runs. What can be one run is one run.
-/

namespace BenchLedger.Run

/-- The runs that a value holds. A value that cannot be kept until both readings were tried holds
none. -/
def listOfJson (j : Json) : Except Json.Failure (List Run) :=
  if !j.isKeepable Json.keptLevels then .error .malformed
  else
    match ofJson j with
    | .ok run => .ok [run]
    | .error _ => j.asList ofJson

def readList (text : String) : Except Json.Failure (List Run) :=
  Json.readAs listOfJson text

end BenchLedger.Run
