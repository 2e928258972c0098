import BenchLedger.Commit
import BenchLedger.MeasureUnit

/-!
Measurements: one value of one benchmark at one commit, and the conditions under which it is valid.
-/

namespace BenchLedger

inductive Quantity where
  | value
  | range
  deriving DecidableEq, Repr

def Quantity.name : Quantity → String
  | value => "value"
  | range => "range"

/-- Why a measurement, a batch or the header of a run is not valid. -/
inductive Invalid where
  | emptyTool
  | emptyName
  | missingCommitId
  | missingUnit (name : String)
  | negativeValue (name : String) (value : Float)
  | negativeRange (name : String) (range : Float)
  | notFinite (name : String) (quantity : Quantity)
  | malformedRange (text : String)
  | foreignRecord (name tool commitId : String)
  | duplicateBenchmark (name : String)
  | invalidDate (millis : Int)
  deriving DecidableEq, Repr

def Invalid.message : Invalid → String
  | emptyTool => "tool name must not be empty"
  | emptyName => "benchmark name must not be empty"
  | missingCommitId => "commit id must not be empty"
  | missingUnit name => s!"benchmark '{name}' has no unit"
  | negativeValue name value =>
    s!"benchmark '{name}' has negative value " ++ Decimal.plainText value
  | negativeRange name range =>
    s!"benchmark '{name}' has negative range " ++ Decimal.plainText range
  | notFinite name quantity => s!"benchmark '{name}' has a non-finite " ++ quantity.name
  | malformedRange text => s!"malformed range '{text}'"
  | foreignRecord name tool commitId => s!"record '{name}' does not belong to {tool}@{commitId}"
  | duplicateBenchmark name => s!"benchmark '{name}' appears more than once in the batch"
  | invalidDate millis => "invalid run date " ++ Decimal.intText millis

def Commit.validate (c : Commit) : Except Invalid Unit :=
  if Text.isAllBlank c.id then throw .missingCommitId else pure ()

/-- A series is the history of one benchmark of one tool. -/
structure SeriesKey where
  tool : String
  name : String
  deriving DecidableEq, Repr, Inhabited

namespace SeriesKey

def text (k : SeriesKey) : String :=
  k.tool ++ "/" ++ k.name

def before (a b : SeriesKey) : Bool :=
  a.tool < b.tool || (a.tool = b.tool && a.name < b.name)

end SeriesKey

structure Measurement where
  tool : String
  commit : Commit
  name : String
  value : Float
  -- Uncertainty of the value, in the same unit.
  range : Float
  unit : MeasureUnit
  -- When the run was reported.
  recordedAt : Instant
  deriving DecidableEq, Repr, Inhabited

namespace Measurement

def key (m : Measurement) : SeriesKey :=
  ⟨m.tool, m.name⟩

def instant (m : Measurement) : Instant :=
  m.commit.instant

/-- Numbers come first: they must be finite and not negative, whatever else is wrong. -/
def validate (m : Measurement) : Except Invalid Unit := do
  if !m.value.isFinite then throw (.notFinite m.name .value)
  if !m.range.isFinite then throw (.notFinite m.name .range)
  if m.value < 0 then throw (.negativeValue m.name m.value)
  if m.range < 0 then throw (.negativeRange m.name m.range)
  if Text.isAllBlank m.tool then throw .emptyTool
  if Text.isAllBlank m.name then throw .emptyName
  if Text.isAllBlank m.unit.text then throw (.missingUnit m.name)
  m.commit.validate

def ensureBelongs (m : Measurement) (tool commitId : String) : Except Invalid Unit :=
  if m.tool ≠ tool ∨ m.commit.id ≠ commitId then throw (.foreignRecord m.name tool commitId)
  else pure ()

def toJson (m : Measurement) : Json :=
  .object [("tool", .string m.tool), ("commit", m.commit.toJson), ("name", .string m.name),
    ("value", .ofFloat m.value), ("range", .ofFloat m.range), ("unit", .string m.unit.text),
    ("recorded_at", m.recordedAt.toJson)]

end Measurement

def MeasureUnit.ofJson (j : Json) : Except Json.Failure MeasureUnit := do
  match read? (← j.asString) with
  | some unit => return unit
  | none => throw .mismatched

namespace Measurement

def shape : Json.Shape Measurement where
  fields := ["tool", "commit", "name", "value", "range", "unit", "recorded_at"]
  required := ["tool", "commit", "name", "value", "range", "unit", "recorded_at"]
  arity := 7
  empty := default
  set field j m :=
    match field with
    | "tool" => return { m with tool := ← j.asString }
    | "commit" => return { m with commit := ← Commit.ofJson j }
    | "name" => return { m with name := ← j.asString }
    | "value" => return { m with value := ← j.asFloat }
    | "range" => return { m with range := ← j.asFloat }
    | "unit" => return { m with unit := ← MeasureUnit.ofJson j }
    | "recorded_at" => return { m with recordedAt := ← Instant.ofJson j }
    | _ => return m

def ofJson (j : Json) : Except Json.Failure Measurement :=
  shape.decode j

end Measurement

end BenchLedger
