import BenchLedger.Dashboard.Document
import BenchLedger.Ingest.Service

/-!
Importing a dashboard document: its runs are ingested in order, and those with an invalid header
are skipped.
-/

namespace BenchLedger

structure SkippedRun where
  suite : String
  commitId : String
  reason : String
  deriving DecidableEq, Repr

structure ImportSummary where
  reports : List Report := []
  skipped : List SkippedRun := []
  deriving DecidableEq, Repr

namespace ImportSummary

def totals (i : ImportSummary) : Tally :=
  .sum (i.reports.map (·.tally))

def hasRegressions (i : ImportSummary) : Bool :=
  i.reports.any (·.hasRegressions)

def toJson (i : ImportSummary) : Json :=
  .object [("reports", .array (i.reports.map Report.toJson)),
    ("skipped", .array (i.skipped.map fun r =>
      .object [("suite", .string r.suite), ("commit_id", .string r.commitId),
        ("reason", .string r.reason)]))]

end ImportSummary

namespace Service

def importRuns (s : Service) : List (String × Run) → ImportSummary × Service
  | [] => ({}, s)
  | (suite, run) :: runs =>
    match s.ingestRun run with
    | .ok (report, s) =>
      let (summary, s) := s.importRuns runs
      ({ summary with reports := report :: summary.reports }, s)
    | .error e =>
      let (summary, s) := s.importRuns runs
      ({ summary with skipped := ⟨suite, run.commit.id, e.message⟩ :: summary.skipped }, s)

def importDashboard (s : Service) (d : Dashboard) : ImportSummary × Service :=
  s.importRuns d.runs

end Service

end BenchLedger
