import BenchLedger.Analysis.Verdict

/-!
Reports of ingestion: one outcome for each measurement of a run, in the order of the run.
-/

namespace BenchLedger

/-- Why a measurement was not stored. -/
inductive RejectionKind where
  | invalidRecord
  | unitMismatch
  | duplicateInBatch
  deriving DecidableEq, Repr, Inhabited

namespace RejectionKind

def name : RejectionKind → String
  | invalidRecord => "invalid_record"
  | unitMismatch => "unit_mismatch"
  | duplicateInBatch => "duplicate_in_batch"

def names : List (String × RejectionKind) :=
  [("invalid_record", invalidRecord), ("unit_mismatch", unitMismatch),
    ("duplicate_in_batch", duplicateInBatch)]

end RejectionKind

/-- What became of one measurement. -/
inductive Status where
  -- Stored and judged. It is out of order if the series had a later record already.
  | evaluated (verdict : Analysis.Verdict) (outOfOrder : Bool)
  -- Recorded before; nothing was written.
  | duplicate
  | rejected (kind : RejectionKind) (reason : String)
  -- The ledger failed; the measurement may be handed in again.
  | storeFailed (reason : String)
  -- Stored, but without a verdict.
  | analysisFailed (reason : String)
  deriving DecidableEq, Repr, Inhabited

structure Outcome where
  benchmark : String
  status : Status
  deriving DecidableEq, Repr, Inhabited

structure Report where
  tool : String
  commitId : String
  -- One outcome for each measurement, in their order.
  outcomes : List Outcome
  deriving DecidableEq, Repr, Inhabited

/-- Number of outcomes of each kind; regressed and improved ones are among the evaluated. -/
structure Tally where
  evaluated : Nat := 0
  regressed : Nat := 0
  improved : Nat := 0
  duplicate : Nat := 0
  rejected : Nat := 0
  storeFailed : Nat := 0
  analysisFailed : Nat := 0
  deriving DecidableEq, Repr, Inhabited

namespace Tally

def add (a b : Tally) : Tally where
  evaluated := a.evaluated + b.evaluated
  regressed := a.regressed + b.regressed
  improved := a.improved + b.improved
  duplicate := a.duplicate + b.duplicate
  rejected := a.rejected + b.rejected
  storeFailed := a.storeFailed + b.storeFailed
  analysisFailed := a.analysisFailed + b.analysisFailed

instance : Add Tally := ⟨add⟩

def sum (tallies : List Tally) : Tally :=
  tallies.foldl (· + ·) {}

-- Measurements that are in the ledger now and were not before.
def stored (t : Tally) : Nat :=
  t.evaluated + t.analysisFailed

def failed (t : Tally) : Nat :=
  t.rejected + t.storeFailed

def toJson (t : Tally) : Json :=
  .object [("evaluated", .ofNat t.evaluated), ("regressed", .ofNat t.regressed),
    ("improved", .ofNat t.improved), ("duplicate", .ofNat t.duplicate),
    ("rejected", .ofNat t.rejected), ("store_failed", .ofNat t.storeFailed),
    ("analysis_failed", .ofNat t.analysisFailed)]

end Tally

namespace Status

def verdict? : Status → Option Analysis.Verdict
  | evaluated verdict _ => some verdict
  | _ => none

def tally : Status → Tally
  | evaluated verdict _ =>
    { evaluated := 1
      regressed := if verdict.isRegressed then 1 else 0
      improved := if verdict.isImproved then 1 else 0 }
  | duplicate => { duplicate := 1 }
  | rejected _ _ => { rejected := 1 }
  | storeFailed _ => { storeFailed := 1 }
  | analysisFailed _ => { analysisFailed := 1 }

-- The status as members of an object, the first of which names its kind.
def members : Status → List (String × Json)
  | evaluated verdict outOfOrder =>
    [("status", .string "evaluated"), ("verdict", verdict.toJson),
      ("out_of_order", .bool outOfOrder)]
  | duplicate => [("status", .string "duplicate")]
  | rejected kind reason =>
    [("status", .string "rejected"), ("kind", .string kind.name), ("reason", .string reason)]
  | storeFailed reason => [("status", .string "store_failed"), ("reason", .string reason)]
  | analysisFailed reason => [("status", .string "analysis_failed"), ("reason", .string reason)]

-- The kinds of status by name, in an order by which they may be numbered as well.
def kinds : List String :=
  ["evaluated", "duplicate", "rejected", "store_failed", "analysis_failed"]

def kindOfJson : Json → Except Json.Failure String
  | .string s => if kinds.contains s then .ok s else .error .mismatched
  | j => do
    match kinds[← j.asNat]? with
    | some kind => return kind
    | none => throw .mismatched

/-- What the members of a status may hold, whatever its kind. -/
structure Parts where
  verdict : Analysis.Verdict := default
  outOfOrder : Bool := false
  kind : RejectionKind := .invalidRecord
  reason : String := ""
  deriving Inhabited

def Parts.shape (fields : List String) : Json.Shape Parts where
  fields := fields
  required := fields
  arity := fields.length
  empty := {}
  set field j p :=
    match field with
    | "verdict" => return { p with verdict := ← Analysis.Verdict.ofJson j }
    | "out_of_order" => return { p with outOfOrder := ← j.asBool }
    | "kind" => return { p with kind := ← j.asName RejectionKind.names }
    | "reason" => return { p with reason := ← j.asString }
    | _ => return p

/-- A status from the members of an object, among which exactly one names its kind. -/
def ofMembers (members : List (String × Json)) : Except Json.Failure Status := do
  let ([(_, kind)], others) := members.partition (·.1 == "status") | throw .mismatched
  let parts (fields : List String) := (Parts.shape fields).decode (.object others)
  match ← kindOfJson kind with
  | "evaluated" => do
    let p ← parts ["verdict", "out_of_order"]
    return evaluated p.verdict p.outOfOrder
  | "rejected" => do
    let p ← parts ["kind", "reason"]
    return rejected p.kind p.reason
  | "store_failed" => return storeFailed (← parts ["reason"]).reason
  | "analysis_failed" => return analysisFailed (← parts ["reason"]).reason
  | _ => return duplicate

end Status

namespace Outcome

def toJson (o : Outcome) : Json :=
  .object (("benchmark", .string o.benchmark) :: o.status.members)

-- The name and the members of the status stand in one object.
def ofJson : Json → Except Json.Failure Outcome
  | .object members => do
    let (names, others) := members.partition (·.1 == "benchmark")
    if !others.all fun (_, j) => j.isKeepable Json.keptLevels then throw .malformed
    let [(_, name)] := names | throw .mismatched
    return { benchmark := ← name.asString, status := ← Status.ofMembers others }
  | j => .error j.misfit

end Outcome

namespace Report

def verdicts (r : Report) : List Analysis.Verdict :=
  r.outcomes.filterMap (·.status.verdict?)

def regressions (r : Report) : List Analysis.Verdict :=
  r.verdicts.filter (·.isRegressed)

def hasRegressions (r : Report) : Bool :=
  !r.regressions.isEmpty

-- The whole run was recorded before.
def isDuplicate (r : Report) : Bool :=
  !r.outcomes.isEmpty && r.outcomes.all (·.status == .duplicate)

def outcome? (r : Report) (benchmark : String) : Option Outcome :=
  r.outcomes.find? (·.benchmark == benchmark)

def tally (r : Report) : Tally :=
  .sum (r.outcomes.map (·.status.tally))

def toJson (r : Report) : Json :=
  .object [("tool", .string r.tool), ("commit_id", .string r.commitId),
    ("outcomes", .array (r.outcomes.map Outcome.toJson))]

def shape : Json.Shape Report where
  fields := ["tool", "commit_id", "outcomes"]
  required := ["tool", "commit_id", "outcomes"]
  arity := 3
  empty := default
  set field j r :=
    match field with
    | "tool" => return { r with tool := ← j.asString }
    | "commit_id" => return { r with commitId := ← j.asString }
    | "outcomes" => return { r with outcomes := ← j.asList Outcome.ofJson }
    | _ => return r

def ofJson (j : Json) : Except Json.Failure Report :=
  shape.decode j

end Report

end BenchLedger
