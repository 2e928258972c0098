import BenchLedger.Json.Decode
import BenchLedger.Measurement
import BenchLedger.Text.Lowercase

/-!
Settings of the analysis: one policy for all series, and overrides for single benchmarks.
-/

namespace BenchLedger.Analysis

/-- What a baseline takes for its center, and with it for its spread. -/
inductive Statistic where
  | mean
  | median
  deriving DecidableEq, Repr, Inhabited

def Statistic.name : Statistic → String
  | mean => "mean"
  | median => "median"

def Statistic.names : List (String × Statistic) :=
  [("mean", .mean), ("median", .median)]

/-- What differs for one benchmark. -/
structure Override where
  thresholdRatio : Option Float := none
  windowSize : Option Nat := none
  statistic : Option Statistic := none
  deriving DecidableEq, Repr, Inhabited

structure Settings where
  -- Number of records before a candidate that make its baseline.
  windowSize : Nat := 5
  -- A baseline of fewer records flags nothing.
  minHistory : Nat := 3
  -- Relative change that is tolerated.
  thresholdRatio : Float := 0.2
  statistic : Statistic := .mean
  -- Keyed by `tool/name` or by name.
  overrides : List (String × Override) := []
  deriving DecidableEq, Repr

instance : Inhabited Settings := ⟨{}⟩

namespace Override

def toJson (o : Override) : Json :=
  .object [("threshold_ratio", (o.thresholdRatio.map Json.ofFloat).getD .null),
    ("window_size", (o.windowSize.map Json.ofNat).getD .null),
    ("statistic", (o.statistic.map (Json.string ·.name)).getD .null)]

def shape : Json.Shape Override where
  fields := ["threshold_ratio", "window_size", "statistic"]
  required := []
  arity := 0
  empty := default
  set field j o :=
    match field with
    | "threshold_ratio" => return { o with thresholdRatio := ← j.asOption Json.asFloat }
    | "window_size" => return { o with windowSize := ← j.asOption Json.asNat }
    | "statistic" => return { o with statistic := ← j.asOption (Json.asName Statistic.names) }
    | _ => return o

def ofJson (j : Json) : Except Json.Failure Override :=
  shape.decode j

end Override

namespace Settings

def toJson (s : Settings) : Json :=
  .object [("window_size", .ofNat s.windowSize), ("min_history", .ofNat s.minHistory),
    ("threshold_ratio", .ofFloat s.thresholdRatio), ("statistic", .string s.statistic.name),
    ("overrides", .object (s.overrides.map fun (k, o) => (k, o.toJson)))]

-- Of two overrides with one key the later counts.
def addOverride (overrides : List (String × Override)) (o : String × Override) :
    List (String × Override) :=
  overrides.filter (·.1 != o.1) ++ [o]

def shape : Json.Shape Settings where
  fields := ["window_size", "min_history", "threshold_ratio", "statistic", "overrides"]
  required := []
  arity := 0
  empty := {}
  set field j s :=
    match field with
    | "window_size" => return { s with windowSize := ← j.asNat }
    | "min_history" => return { s with minHistory := ← j.asNat }
    | "threshold_ratio" => return { s with thresholdRatio := ← j.asFloat }
    | "statistic" => return { s with statistic := ← j.asName Statistic.names }
    | "overrides" =>
      return { s with overrides := (← j.asMembers Override.ofJson).foldl addOverride [] }
    | _ => return s

def ofJson (j : Json) : Except Json.Failure Settings :=
  shape.decode j

end Settings

/-- The settings that hold for one series. -/
structure Policy where
  thresholdRatio : Float
  windowSize : Nat
  minHistory : Nat
  statistic : Statistic
  deriving DecidableEq, Repr

namespace Policy

def toJson (p : Policy) : Json :=
  .object [("threshold_ratio", .ofFloat p.thresholdRatio), ("window_size", .ofNat p.windowSize),
    ("min_history", .ofNat p.minHistory), ("statistic", .string p.statistic.name)]

-- The keys under which an override of a series is looked for, the first hit counting: tool and
-- name, the name alone, and both again in lower case.
def keys (k : SeriesKey) : List String :=
  [k.text, k.name, Text.lowercase k.text, Text.lowercase k.name]

/-- The override of a series and the settings where it says nothing. -/
def resolve (s : Settings) (k : SeriesKey) : Policy :=
  let o := ((keys k).findSome? fun key => s.overrides.lookup key).getD {}
  { thresholdRatio := o.thresholdRatio.getD s.thresholdRatio
    windowSize := o.windowSize.getD s.windowSize
    minHistory := s.minHistory
    statistic := o.statistic.getD s.statistic }

end Policy

end BenchLedger.Analysis
