import BenchLedger.CommandLine.Command
import BenchLedger.Configuration.Load
import BenchLedger.Dashboard.Export
import BenchLedger.Dashboard.Import
import BenchLedger.Ledger.Query
import BenchLedger.Markdown.TrendTable
import BenchLedger.RunFile
import BenchLedger.Workspace.Basic

/-!
Running a command in a workspace: what it prints, how it ends, and what it leaves behind. A command
that fails prints nothing but its failure.
-/

namespace BenchLedger.CommandLine

/-- Why the content of a file is of no use. -/
inductive ReadFault where
  | file (cause : FileFault)
  | json
  deriving DecidableEq, Repr

/-- Why a command failed. -/
inductive CommandError where
  | configuration
  | notOpened (url : String) (cause : LedgerError)
  | notRead (file : String) (cause : ReadFault)
  | notWritten (file : String) (cause : FileFault)
  | invalidRun (cause : InvalidRun)
  | query (cause : QueryError)
  | ledger (cause : LedgerError)
  | notExported (cause : LedgerError)
  | noRecords (key : SeriesKey)
  deriving DecidableEq, Repr

-- A message and the message of its cause, which repeats a part of it.
def withCause (message cause : String) : String :=
  message ++ ": " ++ cause

def fileFaultText (e : FileFault) : String :=
  withCause ("I/O error: " ++ e.message) e.message

def CommandError.message : CommandError → String
  | configuration => "failed to load configuration: configuration error"
  | notOpened url cause => withCause ("failed to open " ++ url) cause.message
  | notRead file (.file cause) => withCause ("failed to read " ++ file) (fileFaultText cause)
  | notRead file .json => withCause ("failed to read " ++ file) "JSON error"
  | notWritten file cause => withCause ("failed to write " ++ file) (fileFaultText cause)
  | invalidRun e => withCause e.message e.cause.message
  | query cause => cause.message
  | ledger cause => cause.message
  | notExported cause => withCause ("store error: " ++ cause.message) cause.message
  | noRecords key => "no records for " ++ key.text

/-- What a command that did not fail has printed. -/
structure Ending where
  out : String := ""
  err : String := ""
  -- Regressions were found, and the command was told to fail on them.
  failsOnRegression : Bool := false
  deriving DecidableEq, Repr

def Ending.exitCode (e : Ending) : Nat :=
  if e.failsOnRegression then 2 else 0

def failureCode : Nat := 1

-- One line of totals, and one for each regression.
def totalsText (reports : List Report) : String :=
  let t : Tally := .sum (reports.map (·.tally))
  let count (n : Nat) (what : String) : String := Decimal.natText n ++ " " ++ what
  let counts := [count t.stored "stored", count t.duplicate "duplicate", count t.failed "failed",
    count t.improved "improved", count t.regressed "regressed"]
  Markdown.unlines ((count reports.length "runs: " ++ ", ".intercalate counts) ::
    (reports.flatMap (·.regressions)).map fun v => "  regressed " ++ v.text)

def skippedText (skipped : List SkippedRun) : String :=
  Markdown.unlines (skipped.map fun r =>
    "skipped " ++ r.commitId ++ " (" ++ r.suite ++ "): " ++ r.reason)

def reportsText (format : OutputFormat) (reports : List Report) : String :=
  match format with
  | .markdown => Markdown.summary reports
  | .json => (Json.array (reports.map Report.toJson)).renderIndented

def trendText (format : OutputFormat) (key : SeriesKey) (points : List TrendPoint) : String :=
  match format with
  | .markdown => Markdown.trendTable key points
  | .json => (Json.array (points.map TrendPoint.toJson)).renderIndented ++ "\n"

-- The reports on runs up to the first with an invalid header, which ends the ingestion.
def ingestRuns (s : Service) : List Run → Except InvalidRun (List Report) × Service
  | [] => (.ok [], s)
  | run :: runs =>
    match s.ingestRun run with
    | .error e => (.error e, s)
    | .ok (report, s) =>
      let (reports, s) := ingestRuns s runs
      (reports.map (report :: ·), s)

def readRuns (w : Workspace) (file : String) : Except CommandError (List Run) :=
  match w.read file with
  | .error e => .error (.notRead file (.file e))
  | .ok text => (Run.readList text).mapError fun _ => .notRead file .json

def readDashboard (w : Workspace) (file : String) : Except CommandError Dashboard :=
  match w.read file with
  | .error e => .error (.notRead file (.file e))
  | .ok text => (Dashboard.read text).mapError fun _ => .notRead file .json

def putText (w : Workspace) (file text : String) : Except CommandError Workspace :=
  (w.write file text).mapError (.notWritten file)

def emit (w : Workspace) (text : String) (output : Option String) :
    Except CommandError (String × Workspace) :=
  match output with
  | none => .ok (text, w)
  | some file => (putText w file text).map fun w => ("", w)

/-- How a command ended, and the workspace and the service after it. -/
abbrev Outcome := Except CommandError Ending × Workspace × Service

def runIngest (w : Workspace) (s : Service) (file : String) (failOnRegression : Bool)
    (format : OutputFormat) (output : Option String) : Outcome :=
  match readRuns w file with
  | .error e => (.error e, w, s)
  | .ok runs =>
    match ingestRuns s runs with
    | (.error e, s) => (.error (.invalidRun e), w, s)
    | (.ok reports, s) =>
      match emit w (reportsText format reports) output with
      | .error e => (.error e, w, s)
      | .ok (out, w) =>
        let regressed := reports.any (·.hasRegressions)
        (.ok { out, err := totalsText reports, failsOnRegression := regressed && failOnRegression },
          w, s)

def runImport (w : Workspace) (s : Service) (file : String) (failOnRegression : Bool) : Outcome :=
  match readDashboard w file with
  | .error e => (.error e, w, s)
  | .ok d =>
    let (summary, s) := s.importDashboard d
    (.ok { err := skippedText summary.skipped ++ totalsText summary.reports
           failsOnRegression := summary.hasRegressions && failOnRegression }, w, s)

def runExport (w : Workspace) (l : Ledger) (file suite repoUrl : String) :
    Except CommandError (Ending × Workspace) := do
  let d ← (l.toDashboard repoUrl suite).mapError .notExported
  let w ← putText w file d.toScript
  return ({ out := "Exported " ++ Decimal.natText d.runs.length ++ " runs to " ++ file ++ "\n" }, w)

def runQuery (l : Ledger) : Command → Except CommandError Ending
  | .trend key range format => do
    let points ← (l.trend key range).mapError .query
    return { out := trendText format key points }
  | .latest key => do
    match ← (l.latest? key).mapError .ledger with
    | some m => return { out := m.toJson.renderIndented ++ "\n" }
    | none => throw (.noRecords key)
  | .names tool => do
    let names ← (match tool with
      | some tool => l.names tool
      | none => l.tools).mapError .ledger
    return { out := Markdown.unlines names }
  | _ => return {}

/-- Runs a command on a ledger that is connected to. -/
def Command.run (c : Command) (w : Workspace) (s : Service) : Outcome :=
  match c with
  | .ingest file failOnRegression format output =>
    runIngest w s file failOnRegression format output
  | .importHistory file failOnRegression _ => runImport w s file failOnRegression
  | .exportHistory file suite repoUrl =>
    match runExport w s.ledger file suite repoUrl with
    | .ok (ending, w) => (.ok ending, w, s)
    | .error e => (.error e, w, s)
  | query => (runQuery s.ledger query, w, s)

namespace Invocation

def configuration? (i : Invocation) (files : Files) (vars : Variables) : Option Configuration :=
  (Configuration.load? files vars i.config).map fun c =>
    { c with
      storage := { c.storage with databaseUrl := i.database.getD c.storage.databaseUrl }
      jsonLogs := c.jsonLogs || i.jsonLogs }

/-- Runs a command in a workspace. What was ingested before a failure stays. -/
def run (i : Invocation) (vars : Variables) (w : Workspace) :
    Except CommandError Ending × Workspace :=
  match i.configuration? w.files vars with
  | none => (.error .configuration, w)
  | some c =>
    let url := c.storage.databaseUrl
    match w.connect url c.storage.timeoutMillis with
    | .error e => (.error (.notOpened url e), w)
    | .ok (location, d) =>
      let (result, w, s) :=
        i.command.run w { settings := c.analysis, ledger := .durable d }
      match s.ledger with
      | .durable d => (result, w.keep location d)
      | .resident _ => (result, w)

end Invocation

end BenchLedger.CommandLine
