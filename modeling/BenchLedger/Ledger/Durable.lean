import BenchLedger.Json.Writer
import BenchLedger.Ledger.Batch

/-!
A durable ledger: a table of rows that outlives the connection to it. A row holds times in whole
milliseconds, the unit as text and the commit as JSON, so reading it back decodes it, which fails
for a row that was damaged from outside.
-/

namespace BenchLedger

structure Row where
  tool : String
  name : String
  commitId : String
  -- The time of the commit, by which rows are read in order.
  commitMillis : Int
  -- The commit with its metadata, as JSON.
  commitText : String
  recordedMillis : Int
  value : Float
  range : Float
  unit : String
  deriving DecidableEq, Repr

namespace Row

-- Numbers as the table keeps them: it has one zero.
def number (x : Float) : Float :=
  if x == 0 then 0 else x

def ofMeasurement (m : Measurement) : Row where
  tool := m.tool
  name := m.name
  commitId := m.commit.id
  commitMillis := m.instant.millis
  commitText := m.commit.toJson.render
  recordedMillis := m.recordedAt.millis
  value := number m.value
  range := number m.range
  unit := m.unit.text

def key (r : Row) : SeriesKey :=
  ⟨r.tool, r.name⟩

def decodeCommit (r : Row) : Except LedgerError Commit :=
  (Json.readAs Commit.ofJson r.commitText).mapError fun _ => .corrupt "commit metadata"

def decodeUnit (r : Row) : Except LedgerError MeasureUnit :=
  match MeasureUnit.read? r.unit with
  | some unit => .ok unit
  | none => .error (.corrupt MeasureUnit.blankMessage)

def decodeRecordedAt (r : Row) : Except LedgerError Instant :=
  match Instant.ofMillis? r.recordedMillis with
  | some recordedAt => .ok recordedAt
  | none => .error (.corrupt ("recorded_at " ++ Decimal.intText r.recordedMillis))

def measurement (r : Row) : Except LedgerError Measurement := do
  let commit ← r.decodeCommit
  let unit ← r.decodeUnit
  let recordedAt ← r.decodeRecordedAt
  return { tool := r.tool, commit, name := r.name, value := r.value, range := r.range, unit,
           recordedAt }

end Row

/-- A change that damages a column of a row. -/
inductive Damage where
  | unit (text : String)
  | commit (text : String)
  | recordedMillis (millis : Int)

def Damage.apply (d : Damage) (r : Row) : Row :=
  match d with
  | unit text => { r with unit := text }
  | commit text => { r with commitText := text }
  | recordedMillis millis => { r with recordedMillis := millis }

structure Durable where
  -- The rows in the order in which they were inserted.
  rows : List Row := []
  isOpen : Bool := true
  deriving DecidableEq, Repr, Inhabited

namespace Durable

def close (d : Durable) : Durable :=
  { d with isOpen := false }

-- A new connection finds the rows as the last one left them.
def reopen (d : Durable) : Durable :=
  { d with isOpen := true }

def connected (d : Durable) : Except LedgerError Unit :=
  if d.isOpen then .ok ()
  else .error (.unavailable "attempted to acquire a connection on a closed pool")

def rowsOf (d : Durable) (key : SeriesKey) : List Row :=
  d.rows.filter (·.key = key)

-- The unit of a series is that of the row inserted first.
def unit? (d : Durable) (key : SeriesKey) : Except LedgerError (Option MeasureUnit) :=
  match (d.rowsOf key).head? with
  | some r => r.decodeUnit.map some
  | none => .ok none

def hasCommit (d : Durable) (tool commitId : String) : Bool :=
  d.rows.any fun r => r.tool = tool ∧ r.commitId = commitId

def insert (d : Durable) (m : Measurement) : Durable :=
  { d with rows := d.rows ++ [.ofMeasurement m] }

/-- Records a batch as a whole or not at all. The commit is checked before units. -/
def append (d : Durable) (tool : String) (commit : Commit) (records : List Measurement) :
    Except LedgerError Durable := do
  Ledger.checked (Ledger.validateBatch tool commit records)
  d.connected
  if d.hasCommit tool commit.id then throw (.duplicateCommit tool commit.id)
  records.forM fun m => do Ledger.ensureUnit (← d.unit? m.key) m
  return records.foldl insert d

/-- Records one measurement. Its commit must be new to the series, not to the tool. -/
def appendRecord (d : Durable) (m : Measurement) : Except LedgerError (Durable × Receipt) := do
  Ledger.checked m.validate
  d.connected
  let recorded := d.rowsOf m.key
  if recorded.any (·.commitId == m.commit.id) then throw (.duplicateCommit m.tool m.commit.id)
  Ledger.ensureUnit (← d.unit? m.key) m
  return (d.insert m,
    { key := m.key
      seriesLength := recorded.length + 1
      outOfOrder := recorded.any fun old => m.instant.millis < old.commitMillis })

-- Rows are read in the order of their milliseconds, and only then ordered by their exact time.
def series (d : Durable) (key : SeriesKey) : Except LedgerError Series := do
  d.connected
  let rows := Order.stableSort (fun a b => decide (a.commitMillis ≤ b.commitMillis)) (d.rowsOf key)
  return .ofRecords key (← rows.mapM Row.measurement)

def names (d : Durable) (tool : String) : Except LedgerError (List String) := do
  d.connected
  return Order.sortTexts ((d.rows.filter (·.tool = tool)).map (·.name))

def tools (d : Durable) : Except LedgerError (List String) := do
  d.connected
  return Order.sortTexts (d.rows.map (·.tool))

def containsCommit (d : Durable) (tool commitId : String) : Except LedgerError Bool := do
  d.connected
  return d.hasCommit tool commitId

-- Damages the rows of a commit in a series; tells how many there were.
def damage (d : Durable) (key : SeriesKey) (commitId : String) (change : Damage) : Nat × Durable :=
  let hit (r : Row) : Bool := r.key = key ∧ r.commitId = commitId
  (d.rows.countP hit, { d with rows := d.rows.map fun r => if hit r then change.apply r else r })

end Durable

end BenchLedger
