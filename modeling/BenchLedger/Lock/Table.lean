import BenchLedger.Ledger.Batch

/-!
The lock table of the writers: one lock for each series, held by at most one guard. Several locks
are taken in the order of their series, and all of them or none.
-/

namespace BenchLedger

structure LockTable where
  -- The series that were reached so far, each once.
  reached : List SeriesKey := []
  -- The series whose lock is held.
  held : List SeriesKey := []
  deriving DecidableEq, Repr, Inhabited

namespace LockTable

def waitMessage (timeoutMillis : Nat) (key : SeriesKey) : String :=
  "timed out after " ++ Decimal.natText timeoutMillis ++ "ms waiting for series " ++ key.text

-- A lock comes into being when its series is first reached.
def reach (t : LockTable) (key : SeriesKey) : LockTable :=
  if t.reached.contains key then t else { t with reached := t.reached ++ [key] }

/-- Takes a lock; the wait for one that is held runs out. The table remembers the series even
then. -/
def acquire (t : LockTable) (timeoutMillis : Nat) (key : SeriesKey) :
    Except LedgerError Unit × LockTable :=
  let t := t.reach key
  if t.held.contains key then (.error (.unavailable (waitMessage timeoutMillis key)), t)
  else (.ok (), { t with held := t.held ++ [key] })

def release (t : LockTable) (guards : List SeriesKey) : LockTable :=
  { t with held := t.held.filter fun key => !guards.contains key }

/-- Takes locks one after the other; when one is held, those taken before it are freed again. -/
def acquireInOrder (t : LockTable) (timeoutMillis : Nat) (taken : List SeriesKey) :
    List SeriesKey → Except LedgerError (List SeriesKey) × LockTable
  | [] => (.ok taken, t)
  | key :: keys =>
    match t.acquire timeoutMillis key with
    | (.ok _, t) => t.acquireInOrder timeoutMillis (taken ++ [key]) keys
    | (.error e, t) => (.error e, t.release taken)

def acquireAll (t : LockTable) (timeoutMillis : Nat) (keys : List SeriesKey) :
    Except LedgerError (List SeriesKey) × LockTable :=
  t.acquireInOrder timeoutMillis [] (Order.sortDistinct SeriesKey.before keys)

def size (t : LockTable) : Nat :=
  t.reached.length

end LockTable

-- The result of an operation that is given a limited time; one that never ends has none.
def bounded {α : Type} (timeoutMillis : Nat) (operation : String) (result : Option α) :
    Except LedgerError α :=
  match result with
  | some a => .ok a
  | none =>
    .error (.unavailable
      (operation ++ " timed out after " ++ Decimal.natText timeoutMillis ++ "ms"))

end BenchLedger
