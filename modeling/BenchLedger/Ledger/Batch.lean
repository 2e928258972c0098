import BenchLedger.Series

/-!
What every ledger checks before it writes: the measurements themselves, that a batch is of one tool
and commit, and that a series keeps its unit.
-/

namespace BenchLedger

/-- Why a ledger did not do what it was asked. -/
inductive LedgerError where
  | invalidRecord (cause : Invalid)
  -- The commit was recorded before, for the tool or for one series of it.
  | duplicateCommit (tool commitId : String)
  | unitMismatch (series : SeriesKey) (expected found : MeasureUnit)
  -- The ledger cannot be reached; asking again may help.
  | unavailable (reason : String)
  -- What the ledger holds cannot be decoded.
  | corrupt (what : String)
  deriving DecidableEq, Repr

namespace LedgerError

def message : LedgerError → String
  | invalidRecord cause => "invalid record: " ++ cause.message
  | duplicateCommit tool commitId => s!"commit {commitId} already recorded for {tool}"
  | unitMismatch series expected found =>
    "series " ++ series.text ++ " is recorded in " ++ expected.text ++ ", got " ++ found.text
  | unavailable reason => "store unavailable: " ++ reason
  | corrupt what => "corrupt stored data: " ++ what

def isRetryable : LedgerError → Bool
  | unavailable _ => true
  | _ => false

end LedgerError

/-- What is known about a measurement once it is recorded. -/
structure Receipt where
  key : SeriesKey
  -- Length of the series with the new measurement.
  seriesLength : Nat
  -- The series had a measurement of a later commit already.
  outOfOrder : Bool
  deriving DecidableEq, Repr

namespace Ledger

/-- Each measurement is valid, belongs to the tool and the commit, and has a name of its own. -/
def validateRecords (tool commitId : String) (seen : List String) :
    List Measurement → Except Invalid Unit
  | [] => .ok ()
  | m :: ms => do
    m.validate
    m.ensureBelongs tool commitId
    if seen.contains m.name then throw (.duplicateBenchmark m.name)
    validateRecords tool commitId (m.name :: seen) ms

def validateBatch (tool : String) (commit : Commit) (records : List Measurement) :
    Except Invalid Unit := do
  if Text.isAllBlank tool then throw .emptyTool
  commit.validate
  validateRecords tool commit.id [] records

-- A series that has a unit accepts no other.
def ensureUnit (recorded : Option MeasureUnit) (m : Measurement) : Except LedgerError Unit :=
  match recorded with
  | some unit => if unit ≠ m.unit then .error (.unitMismatch m.key unit m.unit) else .ok ()
  | none => .ok ()

def checked (r : Except Invalid Unit) : Except LedgerError Unit :=
  r.mapError .invalidRecord

end Ledger

end BenchLedger
