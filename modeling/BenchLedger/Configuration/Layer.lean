import BenchLedger.Configuration.Entry
import BenchLedger.Text.Split

/-!
Layers of configuration. A later layer wins over an earlier one setting by setting; names count in
lower case.
-/

namespace BenchLedger.Entry

mutual

/-- Puts an entry under a name. A table is merged into the table that is there already, and any
other entry takes the place of what is there. -/
def put (members : List (String × Entry)) (name : String) : Entry → List (String × Entry)
  | table ms =>
    let name := Text.lowercase name
    let old := match members.lookup name with
      | some (table old) => old
      | _ => []
    assign members name (table (putAll old ms))
  | e => assign members (Text.lowercase name) e

def putAll (members : List (String × Entry)) : List (String × Entry) → List (String × Entry)
  | [] => members
  | (name, e) :: ms => putAll (put members name e) ms

end

-- Puts an entry at a path. What is on the way and is no table gives way to one.
def putAt (members : List (String × Entry)) : List String → Entry → List (String × Entry)
  | [], _ => members
  | [name], e => put members name e
  | name :: path, e =>
    let old := match members.lookup name with
      | some (table old) => old
      | _ => []
    assign members name (table (putAt old path e))

def isPathChar (c : Char) : Bool :=
  c.isAlphanum || c == ' ' || c == '_' || c == '-'

-- A key of a layer as a path: names with points between them. A key that is not made so is one
-- name.
def pathOf (key : List Char) : List String :=
  let names := Text.splitAt '.' key
  if names.all fun name => !name.isEmpty && name.all isPathChar then names.map String.ofList
  else [String.ofList key]

end BenchLedger.Entry
