import BenchLedger.Ingest.Report

/-!
Reports of ingestion as a markdown document: one table for each report, one row for each outcome.
-/

namespace BenchLedger.Markdown

def unlines (lines : List String) : String :=
  String.join (lines.map (· ++ "\n"))

def row (cells : List String) : String :=
  "| " ++ " | ".intercalate cells ++ " |"

def badge : Analysis.Classification → String
  | .regressed => "🔴"
  | .improved => "🟢"
  | .stable => "⚪"

def resultCell (v : Analysis.Verdict) : String :=
  if v.insufficientHistory then "stable (insufficient history)"
  else badge v.classification ++ " " ++ v.classification.name

-- The center of the baseline as a whole number, or a dash where there is no baseline.
def baselineCell (v : Analysis.Verdict) : String :=
  if v.baseline.sampleSize = 0 then "-"
  else Decimal.fixed 0 false v.baseline.center ++ " " ++ v.unit.text

def outcomeCells (o : Outcome) : List String :=
  match o.status with
  | .evaluated v _ =>
    [o.benchmark, Decimal.plainText v.value ++ " " ++ v.unit.text, baselineCell v, v.change,
      resultCell v]
  | .duplicate => [o.benchmark, "-", "-", "-", "already recorded"]
  | .rejected _ reason => [o.benchmark, "-", "-", "-", "rejected: " ++ reason]
  | .storeFailed reason => [o.benchmark, "-", "-", "-", "store failure: " ++ reason]
  | .analysisFailed reason => [o.benchmark, "-", "-", "-", "not analyzed: " ++ reason]

def reportLines (r : Report) : List String :=
  ["## " ++ r.tool ++ " @ `" ++ Commit.shortId r.commitId ++ "`",
    "",
    "| Benchmark | Value | Baseline | Change | Result |",
    "|-----------|-------|----------|--------|--------|"] ++
    r.outcomes.map (row ∘ outcomeCells) ++ [""]

def summaryLines (reports : List Report) : List String :=
  let regressions := (reports.map (·.tally.regressed)).foldl (· + ·) 0
  ["# Benchmark Summary", ""] ++ reports.flatMap reportLines ++
    ["---", "Runs: " ++ Decimal.natText reports.length ++
      ", regressions: " ++ Decimal.natText regressions]

def summary (reports : List Report) : String :=
  unlines (summaryLines reports)

end BenchLedger.Markdown
