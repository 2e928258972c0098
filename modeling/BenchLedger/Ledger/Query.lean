import BenchLedger.Ledger.Basic
import BenchLedger.Trend

/-!
Questions that a ledger answers about one series: its trend in a span of time and its latest record.
-/

namespace BenchLedger

/-- Why a question has no answer. -/
inductive QueryError where
  | invalidRange (start stop : Instant)
  | ledger (cause : LedgerError)
  deriving DecidableEq, Repr

def QueryError.message : QueryError → String
  | invalidRange start stop =>
    "invalid time range: " ++ start.spacedText ++ " is after " ++ stop.spacedText
  | ledger cause => cause.message

-- The ends of the span must not be exchanged.
def TimeRange.validate (r : TimeRange) : Except QueryError Unit :=
  match r.start, r.stop with
  | some start, some stop =>
    if stop < start then .error (.invalidRange start stop) else .ok ()
  | _, _ => .ok ()

namespace Ledger

/-- The points of a series inside a span of time; the span is checked before the ledger is read. -/
def trend (l : Ledger) (key : SeriesKey) (r : TimeRange) : Except QueryError (List TrendPoint) := do
  r.validate
  match l.series key with
  | .ok s => return s.trend r
  | .error e => throw (.ledger e)

def latest? (l : Ledger) (key : SeriesKey) : Except LedgerError (Option Measurement) :=
  (l.series key).map (·.latest?)

end Ledger

end BenchLedger
