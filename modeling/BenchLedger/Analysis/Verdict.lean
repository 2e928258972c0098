import BenchLedger.Analysis.Baseline
import BenchLedger.Decimal.Fixed

/-!
Verdicts: what became of a measurement when it was compared with its baseline.
-/

namespace BenchLedger.Analysis

inductive Classification where
  | improved
  | stable
  | regressed
  deriving DecidableEq, Repr, Inhabited

namespace Classification

def name : Classification → String
  | improved => "improved"
  | stable => "stable"
  | regressed => "regressed"

def names : List (String × Classification) :=
  [("improved", improved), ("stable", stable), ("regressed", regressed)]

/-- Compares a value with the two bounds around a center; a value on a bound is stable. The numbers
may be of any type with arithmetic and an order. -/
def ofValue {α : Type} [Add α] [Sub α] [Mul α] [OfNat α 1] [LT α] [DecidableLT α]
    (direction : Direction) (center threshold value : α) : Classification :=
  let upper := center * (1 + threshold)
  let lower := center * (1 - threshold)
  match direction with
  | .lowerIsBetter =>
    if upper < value then regressed else if value < lower then improved else stable
  | .higherIsBetter =>
    if value < lower then regressed else if upper < value then improved else stable

end Classification

structure Verdict where
  tool : String
  benchmark : String
  commitId : String
  value : Float
  unit : MeasureUnit
  classification : Classification
  -- Change against the center of the baseline, as a share of it.
  deltaRatio : Float
  thresholdRatio : Float
  -- The baseline was too short to flag anything.
  insufficientHistory : Bool
  -- Distance from the center in units of the spread.
  zScore : Option Float
  pValue : Option Float
  baseline : Baseline
  deriving DecidableEq, Repr, Inhabited

namespace Verdict

def isRegressed (v : Verdict) : Bool :=
  v.classification = .regressed

def isImproved (v : Verdict) : Bool :=
  v.classification = .improved

def deltaPercent (v : Verdict) : Float :=
  v.deltaRatio * 100

def change (v : Verdict) : String :=
  Decimal.fixed 2 true v.deltaPercent ++ "%"

def text (v : Verdict) : String :=
  v.tool ++ "/" ++ v.benchmark ++ " @ " ++ v.commitId ++ ": " ++ v.classification.name ++ " (" ++
    v.change ++ ", " ++ Decimal.plainText v.value ++ " " ++ v.unit.text ++ " vs baseline " ++
    Decimal.fixed 2 false v.baseline.center ++ ")"

def toJson (v : Verdict) : Json :=
  .object ([("tool", .string v.tool), ("benchmark", .string v.benchmark),
    ("commit_id", .string v.commitId), ("value", .ofFloat v.value), ("unit", .string v.unit.text),
    ("classification", .string v.classification.name), ("delta_ratio", .ofFloat v.deltaRatio),
    ("threshold_ratio", .ofFloat v.thresholdRatio),
    ("insufficient_history", .bool v.insufficientHistory)] ++
    Json.optional "z_score" (v.zScore.map .ofFloat) ++
    Json.optional "p_value" (v.pValue.map .ofFloat) ++ [("baseline", v.baseline.toJson)])

def shape : Json.Shape Verdict where
  fields := ["tool", "benchmark", "commit_id", "value", "unit", "classification", "delta_ratio",
    "threshold_ratio", "insufficient_history", "z_score", "p_value", "baseline"]
  required := ["tool", "benchmark", "commit_id", "value", "unit", "classification", "delta_ratio",
    "threshold_ratio", "insufficient_history", "baseline"]
  arity := 12
  empty := default
  set field j v :=
    match field with
    | "tool" => return { v with tool := ← j.asString }
    | "benchmark" => return { v with benchmark := ← j.asString }
    | "commit_id" => return { v with commitId := ← j.asString }
    | "value" => return { v with value := ← j.asFloat }
    | "unit" => return { v with unit := ← MeasureUnit.ofJson j }
    | "classification" => return { v with classification := ← j.asName Classification.names }
    | "delta_ratio" => return { v with deltaRatio := ← j.asFloat }
    | "threshold_ratio" => return { v with thresholdRatio := ← j.asFloat }
    | "insufficient_history" => return { v with insufficientHistory := ← j.asBool }
    | "z_score" => return { v with zScore := ← j.asOption Json.asFloat }
    | "p_value" => return { v with pValue := ← j.asOption Json.asFloat }
    | "baseline" => return { v with baseline := ← Baseline.ofJson j }
    | _ => return v

def ofJson (j : Json) : Except Json.Failure Verdict :=
  shape.decode j

end Verdict

end BenchLedger.Analysis
