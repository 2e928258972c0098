import BenchLedger.Ledger.Durable
import BenchLedger.Ledger.Resident

/-!
Ledgers of either kind behind one set of operations: appending batches and single measurements, and
reading series, names, tools and commits.
-/

namespace BenchLedger

inductive Ledger where
  | resident (r : Resident)
  | durable (d : Durable)
  deriving DecidableEq, Repr, Inhabited

namespace Ledger

/-- Records a batch as a whole or not at all. -/
def append (l : Ledger) (tool : String) (commit : Commit) (records : List Measurement) :
    Except LedgerError Ledger :=
  match l with
  | resident r => (r.append tool commit records).map resident
  | durable d => (d.append tool commit records).map durable

def appendRecord (l : Ledger) (m : Measurement) : Except LedgerError (Ledger × Receipt) :=
  match l with
  | resident r => (r.appendRecord m).map fun (r, receipt) => (resident r, receipt)
  | durable d => (d.appendRecord m).map fun (d, receipt) => (durable d, receipt)

def series (l : Ledger) (key : SeriesKey) : Except LedgerError Series :=
  match l with
  | resident r => .ok (r.series key)
  | durable d => d.series key

def names (l : Ledger) (tool : String) : Except LedgerError (List String) :=
  match l with
  | resident r => .ok (r.names tool)
  | durable d => d.names tool

def tools (l : Ledger) : Except LedgerError (List String) :=
  match l with
  | resident r => .ok r.tools
  | durable d => d.tools

def containsCommit (l : Ledger) (tool commitId : String) : Except LedgerError Bool :=
  match l with
  | resident r => .ok (r.containsCommit tool commitId)
  | durable d => d.containsCommit tool commitId

end Ledger

end BenchLedger
