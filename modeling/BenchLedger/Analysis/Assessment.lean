import BenchLedger.Analysis.Normal
import BenchLedger.Analysis.Verdict
import BenchLedger.Series

/-!
Assessment: judging a measurement of a series against the window before it.
-/

namespace BenchLedger.Analysis

-- Makes the median distance of normal values comparable with their standard deviation.
def madScale : Float := 1.4826

-- The distance of a value from the center in units of the spread, where there is a spread.
def zScore? (value : Float) (b : Baseline) : Option Float :=
  let spread := match b.statistic with
    | .mean => b.stdDev
    | .median => b.mad * madScale
  if b.sampleSize < 2 || spread ≤ 0 || !spread.isFinite then none
  else some ((value - b.center) / spread)

-- The change of a value against a center, as a share of the center; 0 for a center of 0.
def deltaRatio (value center : Float) : Float :=
  if center == 0 then 0 else (value - center) / center

/-- The verdict on a candidate, given its baseline and the ratio that is tolerated. -/
def evaluate (s : Settings) (candidate : Measurement) (b : Baseline) (threshold : Float) :
    Except AnalysisError Verdict := do
  if !threshold.isFinite || threshold < 0 then throw (.invalidThreshold threshold)
  if let some unit := b.unit then
    if unit ≠ candidate.unit then throw (.unitMismatch unit candidate.unit)
  let insufficient := b.sampleSize < (Policy.resolve s candidate.key).minHistory
  let zScore := zScore? candidate.value b
  return {
    tool := candidate.tool
    benchmark := candidate.name
    commitId := candidate.commit.id
    value := candidate.value
    unit := candidate.unit
    classification :=
      if insufficient then .stable
      else .ofValue candidate.unit.direction b.center threshold candidate.value
    deltaRatio := deltaRatio candidate.value b.center
    thresholdRatio := threshold
    insufficientHistory := insufficient
    zScore
    pValue := zScore.map fun z => upperTail z.abs
    baseline := b }

-- The baseline of the `window` records before the place `index` of a series.
def baselineAt (s : Settings) (series : Series) (index window : Nat) :
    Except AnalysisError Baseline :=
  Baseline.ofRecords (Policy.resolve s series.key).statistic (series.windowBefore index window)

-- The baseline of the last `window` records but the very last `excluded` ones.
def baseline (s : Settings) (series : Series) (window excluded : Nat) :
    Except AnalysisError Baseline :=
  baselineAt s series (series.size - excluded) window

/-- The verdict on the record of a commit against the window before it. -/
def assess (s : Settings) (series : Series) (commitId : String) : Except AnalysisError Verdict := do
  let some index := series.position? commitId | throw (.candidateNotFound series.key commitId)
  let some candidate := series.records[index]? | throw (.candidateNotFound series.key commitId)
  let policy := Policy.resolve s series.key
  let b ← baselineAt s series index policy.windowSize
  evaluate s candidate b policy.thresholdRatio

def assessLatest (s : Settings) (series : Series) : Except AnalysisError (Option Verdict) :=
  match series.latest? with
  | some latest => (assess s series latest.commit.id).map some
  | none => .ok none

end BenchLedger.Analysis
