import BenchLedger.Analysis.Settings
import BenchLedger.Analysis.Statistics

/-!
Baselines: the summary of a window of measurements that a candidate is compared with.
-/

namespace BenchLedger.Analysis

/-- Why a measurement could not be judged. -/
inductive AnalysisError where
  | unitMismatch (expected found : MeasureUnit)
  | candidateNotFound (key : SeriesKey) (commitId : String)
  | invalidThreshold (ratio : Float)
  deriving DecidableEq, Repr

def AnalysisError.message : AnalysisError → String
  | unitMismatch expected found =>
    "unit mismatch: expected " ++ expected.text ++ ", found " ++ found.text
  | candidateNotFound key commitId => s!"commit {commitId} not found in series " ++ key.text
  | invalidThreshold ratio => "invalid threshold ratio " ++ Decimal.plainText ratio

structure Baseline where
  statistic : Statistic
  mean : Float
  -- Sample standard deviation, 0 for fewer than two values.
  stdDev : Float
  median : Float
  -- Median distance from the median.
  mad : Float
  sampleSize : Nat
  unit : Option MeasureUnit
  deriving DecidableEq, Repr, Inhabited

namespace Baseline

def ofValues (statistic : Statistic) (unit : Option MeasureUnit) (values : List Float) :
    Baseline where
  statistic := statistic
  mean := if values.isEmpty then 0 else Analysis.mean values
  stdDev := standardDeviation values
  median := if values.isEmpty then 0 else Analysis.median values
  mad := if values.isEmpty then 0 else medianDeviation values
  sampleSize := values.length
  unit := unit

/-- The values of a window must all have the unit of the first. -/
def ofRecords (statistic : Statistic) (window : List Measurement) :
    Except AnalysisError Baseline := do
  let unit := window.head?.map (·.unit)
  match window.find? fun m => some m.unit ≠ unit with
  | some other => throw (.unitMismatch (unit.getD other.unit) other.unit)
  | none => return ofValues statistic unit (window.map (·.value))

def center (b : Baseline) : Float :=
  match b.statistic with
  | .mean => b.mean
  | .median => b.median

def spread (b : Baseline) : Float :=
  match b.statistic with
  | .mean => b.stdDev
  | .median => b.mad

def toJson (b : Baseline) : Json :=
  .object [("statistic", .string b.statistic.name), ("mean", .ofFloat b.mean),
    ("std_dev", .ofFloat b.stdDev), ("median", .ofFloat b.median), ("mad", .ofFloat b.mad),
    ("sample_size", .ofNat b.sampleSize), ("unit", (b.unit.map (Json.string ·.text)).getD .null)]

def shape : Json.Shape Baseline where
  fields := ["statistic", "mean", "std_dev", "median", "mad", "sample_size", "unit"]
  required := ["statistic", "mean", "std_dev", "median", "mad", "sample_size"]
  arity := 7
  empty := default
  set field j b :=
    match field with
    | "statistic" => return { b with statistic := ← j.asName Statistic.names }
    | "mean" => return { b with mean := ← j.asFloat }
    | "std_dev" => return { b with stdDev := ← j.asFloat }
    | "median" => return { b with median := ← j.asFloat }
    | "mad" => return { b with mad := ← j.asFloat }
    | "sample_size" => return { b with sampleSize := ← j.asNat }
    | "unit" => return { b with unit := ← j.asOption MeasureUnit.ofJson }
    | _ => return b

def ofJson (j : Json) : Except Json.Failure Baseline :=
  shape.decode j

end Baseline

end BenchLedger.Analysis
