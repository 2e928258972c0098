import BenchLedger.Dashboard.Document
import BenchLedger.Ledger.Basic

/-!
Exporting a ledger as a dashboard document: the measurements of all series are grouped again into
one run for each tool and commit.
-/

namespace BenchLedger

-- The order of runs in a document: by time of commit, date, tool and id of the commit.
def Run.notAfter (a b : Run) : Bool :=
  if a.commit.instant ≠ b.commit.instant then decide (a.commit.instant < b.commit.instant)
  else if a.date ≠ b.date then decide (a.date < b.date)
  else if a.tool ≠ b.tool then decide (a.tool < b.tool)
  else !decide (b.commit.id < a.commit.id)

namespace Ledger

-- All measurements: tools and names in ascending order, each series in its order.
def measurements (l : Ledger) : Except LedgerError (List Measurement) := do
  let series ← (← l.tools).mapM fun tool => do
    (← l.names tool).mapM fun name => return (← l.series ⟨tool, name⟩).records
  return series.flatten.flatten

end Ledger

-- Tool and commit id of every measurement, each pair once, in the order of the first.
def groupKeys (ms : List Measurement) : List (String × String) :=
  (ms.map fun m => (m.tool, m.commit.id)).eraseDups

-- The measurements of one tool and commit as a run; the first of them gives its commit.
def group? (ms : List Measurement) (key : String × String) : Option Run :=
  match ms.filter fun m => (m.tool, m.commit.id) = key with
  | [] => none
  | m :: others => some (.ofRecords key.1 m.commit (m :: others))

/-- The document of a list of measurements, with all runs in one suite. -/
def Dashboard.ofMeasurements (repoUrl suite : String) (ms : List Measurement) : Dashboard :=
  let runs := Order.stableSort Run.notAfter ((groupKeys ms).filterMap (group? ms))
  { lastUpdate := (runs.map (·.date)).max?.getD 0
    repoUrl
    entries := if runs.isEmpty then [] else [(suite, runs)] }

def Ledger.toDashboard (l : Ledger) (repoUrl suite : String) : Except LedgerError Dashboard :=
  l.measurements.map (Dashboard.ofMeasurements repoUrl suite)

end BenchLedger
