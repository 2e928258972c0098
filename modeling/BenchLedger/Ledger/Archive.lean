import BenchLedger.Json.Writer
import BenchLedger.Ledger.Durable

/-!
Durable ledgers as text: the rows in the order in which they were inserted, as JSON. Numbers stand
there by their bits, since the digits of a float need not read back as that float.
-/

namespace BenchLedger

namespace Row

def bits (x : Float) : Json :=
  .ofNat x.toBits.toNat

def ofBits (j : Json) : Except Json.Failure Float :=
  j.asNat.map fun n => Float.ofBits (UInt64.ofNat n)

def toJson (r : Row) : Json :=
  .object [("tool", .string r.tool), ("name", .string r.name), ("commit_id", .string r.commitId),
    ("commit_ms", .ofInt r.commitMillis), ("commit", .string r.commitText),
    ("recorded_ms", .ofInt r.recordedMillis), ("value", bits r.value),
    ("range", bits r.range), ("unit", .string r.unit)]

def shape : Json.Shape Row where
  fields := ["tool", "name", "commit_id", "commit_ms", "commit", "recorded_ms", "value", "range",
    "unit"]
  required := ["tool", "name", "commit_id", "commit_ms", "commit", "recorded_ms", "value", "range",
    "unit"]
  arity := 9
  empty := ⟨"", "", "", 0, "", 0, 0, 0, ""⟩
  set field j r :=
    match field with
    | "tool" => return { r with tool := ← j.asString }
    | "name" => return { r with name := ← j.asString }
    | "commit_id" => return { r with commitId := ← j.asString }
    | "commit_ms" => return { r with commitMillis := ← j.asInt }
    | "commit" => return { r with commitText := ← j.asString }
    | "recorded_ms" => return { r with recordedMillis := ← j.asInt }
    | "value" => return { r with value := ← ofBits j }
    | "range" => return { r with range := ← ofBits j }
    | "unit" => return { r with unit := ← j.asString }
    | _ => return r

def ofJson (j : Json) : Except Json.Failure Row :=
  shape.decode j

end Row

namespace Durable

def archive (d : Durable) : String :=
  (Json.array (d.rows.map Row.toJson)).renderIndented ++ "\n"

def ofArchive (text : String) : Except Json.Failure Durable :=
  (Json.readAs (Json.asList Row.ofJson) text).map fun rows => { rows }

end Durable

end BenchLedger
