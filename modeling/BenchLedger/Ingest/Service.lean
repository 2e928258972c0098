import BenchLedger.Analysis.Assessment
import BenchLedger.Ingest.Report
import BenchLedger.Ledger.Basic
import BenchLedger.Run

/-!
Ingestion: the measurements of a run go into the ledger one by one, each is judged against its
series as it then stands, and a regression raises an alert. Nothing that is wrong with one
measurement touches another.
-/

namespace BenchLedger

/-- A regression that was noticed when its measurement came in. -/
structure Alert where
  commitUrl : String
  verdict : Analysis.Verdict
  deriving DecidableEq, Repr

/-- Totals of one tool over all ingestions. -/
structure Totals where
  tool : String
  -- Ingestions that were carried out.
  ingestions : Nat := 0
  tally : Tally := {}
  deriving DecidableEq, Repr

-- Adds an ingestion to the totals of its tool; a tool that is new comes last.
def Totals.record (tool : String) (tally : Tally) : List Totals → List Totals
  | [] => [{ tool, ingestions := 1, tally }]
  | t :: ts =>
    if t.tool = tool then { t with ingestions := t.ingestions + 1, tally := t.tally + tally } :: ts
    else t :: record tool tally ts

/-- The header of a run is not valid, so none of it was ingested. -/
structure InvalidRun where
  cause : Invalid
  deriving DecidableEq, Repr

def InvalidRun.message (e : InvalidRun) : String :=
  "invalid run: " ++ e.cause.message

/-- A ledger with the settings by which it judges, and what has come of it. -/
structure Service where
  settings : Analysis.Settings := {}
  ledger : Ledger
  -- The alerts raised so far, oldest first.
  alerts : List Alert := []
  totals : List Totals := []
  deriving DecidableEq, Repr

/-- The place of an entry in a report: settled before anything is written, or to be recorded. -/
inductive Slot where
  | settled (outcome : Outcome)
  | pending (m : Measurement)

namespace Slot

-- The name of a benchmark counts once in a run, for the first entry that was accepted.
def ofEntries (seen : List String) : List (Except Rejection Measurement) → List Slot
  | [] => []
  | .error e :: entries =>
    settled ⟨e.name, .rejected .invalidRecord e.cause.message⟩ :: ofEntries seen entries
  | .ok m :: entries =>
    if seen.contains m.name then
      settled ⟨m.name, .rejected .duplicateInBatch
        ("benchmark " ++ m.name ++ " appears more than once in the run")⟩ ::
        ofEntries seen entries
    else pending m :: ofEntries (m.name :: seen) entries

def pending? : Slot → Option Measurement
  | settled _ => none
  | pending m => some m

def fill : List Slot → List Outcome → List Outcome
  | [], _ => []
  | settled o :: slots, outcomes => o :: fill slots outcomes
  | pending _ :: slots, o :: outcomes => o :: fill slots outcomes
  | pending _ :: slots, [] => fill slots []

end Slot

namespace Service

def refusal : LedgerError → Status
  | .duplicateCommit _ _ => .duplicate
  | .invalidRecord cause => .rejected .invalidRecord cause.message
  | .unitMismatch key expected found =>
    .rejected .unitMismatch (LedgerError.unitMismatch key expected found).message
  | e => .storeFailed e.message

-- Judges the record of a commit in the series as it now stands; a regression raises an alert.
def judge (s : Service) (key : SeriesKey) (commit : Commit) (outOfOrder : Bool) :
    Status × Service :=
  match s.ledger.series key with
  | .error e => (.analysisFailed e.message, s)
  | .ok series =>
    match Analysis.assess s.settings series commit.id with
    | .error e => (.analysisFailed e.message, s)
    | .ok verdict =>
      (.evaluated verdict outOfOrder,
        if verdict.isRegressed then { s with alerts := s.alerts ++ [⟨commit.url, verdict⟩] } else s)

def ingestMeasurement (s : Service) (tool : String) (commit : Commit) (m : Measurement) :
    Status × Service :=
  match m.validate, m.ensureBelongs tool commit.id with
  | .error e, _ => (.rejected .invalidRecord e.message, s)
  | _, .error e => (.rejected .invalidRecord e.message, s)
  | .ok _, .ok _ =>
    match s.ledger.appendRecord m with
    | .error e => (refusal e, s)
    | .ok (ledger, receipt) =>
      { s with ledger }.judge ⟨tool, m.name⟩ commit receipt.outOfOrder

def ingestEach (s : Service) (tool : String) (commit : Commit) :
    List Measurement → List Outcome × Service
  | [] => ([], s)
  | m :: ms =>
    let (status, s) := s.ingestMeasurement tool commit m
    let (outcomes, s) := s.ingestEach tool commit ms
    (⟨m.name, status⟩ :: outcomes, s)

-- The report on all entries of a run, and the totals with it.
def ingestEntries (s : Service) (tool : String) (commit : Commit)
    (entries : List (Except Rejection Measurement)) : Report × Service :=
  let slots := Slot.ofEntries [] entries
  let (outcomes, s) := s.ingestEach tool commit (slots.filterMap Slot.pending?)
  let report : Report := ⟨tool, commit.id, Slot.fill slots outcomes⟩
  (report, { s with totals := Totals.record tool report.tally s.totals })

def ingest (s : Service) (tool : String) (commit : Commit) (records : List Measurement) :
    Except InvalidRun (Report × Service) :=
  if Text.isAllBlank tool then .error ⟨.emptyTool⟩
  else
    match commit.validate with
    | .error e => .error ⟨e⟩
    | .ok _ => .ok (s.ingestEntries tool commit (records.map .ok))

/-- Ingests a run, if its header is valid. -/
def ingestRun (s : Service) (r : Run) : Except InvalidRun (Report × Service) :=
  match r.validateHeader with
  | .error e => .error ⟨e⟩
  | .ok _ => .ok (s.ingestEntries r.tool r.commit r.entries)

end Service

end BenchLedger
