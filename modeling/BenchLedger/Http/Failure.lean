import BenchLedger.Ingest.Service
import BenchLedger.Ledger.Query

/-!
Failures as the HTTP service reports them: a status, a code for programs and a message for people.
-/

namespace BenchLedger.Http

structure Failure where
  status : Nat
  code : String
  message : String
  deriving DecidableEq, Repr

namespace Failure

def text (f : Failure) : String :=
  f.code ++ ": " ++ f.message

def notFound (message : String) : Failure :=
  ⟨404, "NOT_FOUND", message⟩

def invalidPayload (message : String) : Failure :=
  ⟨400, "INVALID_PAYLOAD", message⟩

def invalidQuery (message : String) : Failure :=
  ⟨400, "INVALID_QUERY", message⟩

def ofLedger (e : LedgerError) : Failure :=
  match e with
  | .unavailable _ => ⟨503, "STORE_UNAVAILABLE", e.message⟩
  | .invalidRecord _ => ⟨400, "INVALID_RECORD", e.message⟩
  | .duplicateCommit _ _ => ⟨409, "DUPLICATE_COMMIT", e.message⟩
  | .unitMismatch _ _ _ => ⟨409, "UNIT_MISMATCH", e.message⟩
  | .corrupt _ => ⟨500, "STORE_CORRUPT", e.message⟩

def ofQuery (e : QueryError) : Failure :=
  match e with
  | .ledger cause => ofLedger cause
  | .invalidRange _ _ => ⟨400, "INVALID_RANGE", e.message⟩

def ofRun (e : InvalidRun) : Failure :=
  ⟨400, "INVALID_RUN", e.message⟩

end Failure

end BenchLedger.Http
