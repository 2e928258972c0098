import BenchLedger.Measurement
import BenchLedger.RangeText

/-!
Runs: what a tool reports of one commit, with ranges and units still as text. A run has a header,
which is valid or not as a whole, and entries that are accepted or rejected one by one.
-/

namespace BenchLedger

structure Bench where
  name : String
  value : Float
  range : String
  unit : String
  deriving DecidableEq, Repr, Inhabited

structure Run where
  tool : String
  commit : Commit
  -- When the run was reported, in milliseconds since the start of 1970.
  date : Int
  benches : List Bench
  deriving DecidableEq, Repr, Inhabited

/-- An entry that was not accepted, by name, and why. -/
structure Rejection where
  name : String
  cause : Invalid
  deriving DecidableEq, Repr

namespace Bench

def toJson (b : Bench) : Json :=
  .object [("name", .string b.name), ("value", .ofFloat b.value), ("range", .string b.range),
    ("unit", .string b.unit)]

def shape : Json.Shape Bench where
  fields := ["name", "value", "range", "unit"]
  required := ["name", "value", "range", "unit"]
  arity := 4
  empty := default
  set field j b :=
    match field with
    | "name" => return { b with name := ← j.asString }
    | "value" => return { b with value := ← j.asFloat }
    | "range" => return { b with range := ← j.asString }
    | "unit" => return { b with unit := ← j.asString }
    | _ => return b

def ofJson (j : Json) : Except Json.Failure Bench :=
  shape.decode j

end Bench

namespace Run

def toJson (r : Run) : Json :=
  .object [("tool", .string r.tool), ("commit", r.commit.toJson), ("date", .ofInt r.date),
    ("benches", .array (r.benches.map Bench.toJson))]

def shape : Json.Shape Run where
  fields := ["tool", "commit", "date", "benches"]
  required := ["tool", "commit", "date", "benches"]
  arity := 4
  empty := default
  set field j r :=
    match field with
    | "tool" => return { r with tool := ← j.asString }
    | "commit" => return { r with commit := ← Commit.ofJson j }
    | "date" => return { r with date := ← j.asInt }
    | "benches" => return { r with benches := ← j.asList Bench.ofJson }
    | _ => return r

def ofJson (j : Json) : Except Json.Failure Run :=
  shape.decode j

-- The date as an instant, if the calendar reaches that far.
def recordedAt (r : Run) : Except Invalid Instant :=
  match Instant.ofMillis? r.date with
  | some t => .ok t
  | none => .error (.invalidDate r.date)

def validateHeader (r : Run) : Except Invalid Unit := do
  if Text.isAllBlank r.tool then throw .emptyTool
  r.commit.validate
  discard r.recordedAt

def measurement (r : Run) (b : Bench) : Except Invalid Measurement := do
  let recordedAt ← r.recordedAt
  let some range := RangeText.read? b.range | throw (.malformedRange b.range)
  let some unit := MeasureUnit.read? b.unit | throw (.missingUnit b.name)
  let m : Measurement :=
    { tool := r.tool, commit := r.commit, name := b.name, value := b.value,
      range, unit, recordedAt }
  m.validate
  return m

def entries (r : Run) : List (Except Rejection Measurement) :=
  r.benches.map fun b => (r.measurement b).mapError (⟨b.name, ·⟩)

/-- The run that reports the given measurements of one commit. Its date is the latest of theirs, or
the time of the commit where there is none. -/
def ofRecords (tool : String) (commit : Commit) (records : List Measurement) : Run where
  tool := tool
  commit := commit
  date := (records.map (·.recordedAt.millis)).max?.getD commit.instant.millis
  benches := records.map fun m =>
    { name := m.name, value := m.value, range := RangeText.write m.range, unit := m.unit.text }

end Run

end BenchLedger
