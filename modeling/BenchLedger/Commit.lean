import BenchLedger.Json.Decode
import BenchLedger.Text.Utf8
import BenchLedger.Time.Reader
import BenchLedger.Time.Writer

/-!
Commits: the code versions that runs were measured against, with the metadata that came with them.
-/

namespace BenchLedger

structure Person where
  name : String
  email : Option String := none
  username : Option String := none
  deriving DecidableEq, Repr, Inhabited

structure Commit where
  id : String
  author : Person
  committer : Person
  -- When the commit was made, with the author's offset.
  timestamp : Timestamp
  treeId : String
  url : String
  message : Option String := none
  -- Whether the commit was distinct in its push.
  distinct : Option Bool := none
  deriving DecidableEq, Repr, Inhabited

def Timestamp.toJson (t : Timestamp) : Json :=
  .string t.text

def Timestamp.ofJson (j : Json) : Except Json.Failure Timestamp := do
  match read? (← j.asString) with
  | some t => return t
  | none => throw .mismatched

def Instant.toJson (t : Instant) : Json :=
  .string t.text

def Instant.ofJson (j : Json) : Except Json.Failure Instant :=
  (Timestamp.ofJson j).map (·.instant)

namespace Person

def toJson (p : Person) : Json :=
  .object (("name", .string p.name) :: Json.optional "email" (p.email.map .string) ++
    Json.optional "username" (p.username.map .string))

def shape : Json.Shape Person where
  fields := ["name", "email", "username"]
  required := ["name"]
  arity := 1
  empty := default
  set field j p :=
    match field with
    | "name" => return { p with name := ← j.asString }
    | "email" => return { p with email := ← j.asOption Json.asString }
    | "username" => return { p with username := ← j.asOption Json.asString }
    | _ => return p

def ofJson (j : Json) : Except Json.Failure Person :=
  shape.decode j

end Person

namespace Commit

-- The instant by which the records of a series are ordered.
def instant (c : Commit) : Instant :=
  c.timestamp.instant

def toJson (c : Commit) : Json :=
  .object ([("id", .string c.id), ("author", c.author.toJson), ("committer", c.committer.toJson),
    ("timestamp", c.timestamp.toJson), ("tree_id", .string c.treeId), ("url", .string c.url)] ++
    Json.optional "message" (c.message.map .string) ++
    Json.optional "distinct" (c.distinct.map .bool))

def shape : Json.Shape Commit where
  fields := ["id", "author", "committer", "timestamp", "tree_id", "url", "message", "distinct"]
  required := ["id", "author", "committer", "timestamp", "tree_id", "url"]
  arity := 6
  empty := default
  set field j c :=
    match field with
    | "id" => return { c with id := ← j.asString }
    | "author" => return { c with author := ← Person.ofJson j }
    | "committer" => return { c with committer := ← Person.ofJson j }
    | "timestamp" => return { c with timestamp := ← Timestamp.ofJson j }
    | "tree_id" => return { c with treeId := ← j.asString }
    | "url" => return { c with url := ← j.asString }
    | "message" => return { c with message := ← j.asOption Json.asString }
    | "distinct" => return { c with distinct := ← j.asOption Json.asBool }
    | _ => return c

def ofJson (j : Json) : Except Json.Failure Commit :=
  shape.decode j

/-- The first seven bytes of the id, or all of it where that would cut a character. -/
def shortId (id : String) : String :=
  match Text.firstBytes? id.toList 7 with
  | some cs => String.ofList cs
  | none => id

end Commit

end BenchLedger
