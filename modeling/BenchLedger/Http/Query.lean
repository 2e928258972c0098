import BenchLedger.Text.Form
import BenchLedger.Time.Reader

/-!
Parameters in the query of an address. Parameters that nothing asks for are skipped; one that is
asked for must not be given twice.
-/

namespace BenchLedger.Http

/-- The query does not give the parameters that are asked for. -/
inductive QueryFault where
  | missing (name : String)
  | repeated (name : String)
  | notAnInstant (name : String)
  deriving DecidableEq, Repr

def optionalValue (query : List (String × String)) (name : String) :
    Except QueryFault (Option String) :=
  match query.filter (·.1 == name) with
  | [] => .ok none
  | [(_, value)] => .ok (some value)
  | _ => .error (.repeated name)

def requiredValue (query : List (String × String)) (name : String) : Except QueryFault String := do
  match ← optionalValue query name with
  | some value => return value
  | none => throw (.missing name)

-- An instant that may be left out; an empty value is not the same as none.
def optionalInstant (query : List (String × String)) (name : String) :
    Except QueryFault (Option Instant) := do
  match ← optionalValue query name with
  | none => return none
  | some value =>
    match Instant.read? value with
    | some t => return some t
    | none => throw (.notAnInstant name)

end BenchLedger.Http
