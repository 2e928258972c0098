import BenchLedger.Toml.Scalar

/-!
TOML documents as tables of entries. A table grows line by line, and how it came about decides
what a later line may still add to it: no key is set twice, and no table has two headers.
-/

namespace BenchLedger.Toml

/-- How a table came about. -/
inductive Origin where
  -- It stands in the path of another table's header.
  | implied
  -- It stands in the path of a key.
  | dotted
  -- It has a header of its own, or is the document.
  | header
  deriving DecidableEq, Repr

inductive Node where
  | leaf (value : Entry)
  | table (origin : Origin) (members : List (String × Node))
  -- A list of tables, of which only the last is open; the others come latest first.
  | tables (closed : List (List (String × Node))) (members : List (String × Node))

abbrev Members := List (String × Node)

namespace Node

mutual

def entry : Node → Entry
  | leaf e => e
  | table _ members => .table (entries members)
  | tables closed members => .list (closedEntries [.table (entries members)] closed)

def entries : List (String × Node) → List (String × Entry)
  | [] => []
  | (name, n) :: ms => (name, entry n) :: entries ms

def closedEntries (after : List Entry) : List (List (String × Node)) → List Entry
  | [] => after
  | members :: closed => closedEntries (.table (entries members) :: after) closed

end

end Node

namespace Members

-- The members with one changed; the name must be among them.
def assign (members : Members) (name : String) (n : Node) : Members :=
  members.map fun m => if m.1 == name then (name, n) else m

/-- Applies `change` to the table at a path from a table of origin `o`. Tables that are missing on
the way come about as `origin` says; the path of a key does not lead into a table with a header. -/
def within (origin : Origin) (change : Origin → Members → Option Members) (o : Origin)
    (members : Members) : List String → Option Members
  | [] => change o members
  | name :: path =>
    match members.lookup name with
    | none =>
      (within origin change origin [] path).map fun ms => members ++ [(name, .table origin ms)]
    | some (.leaf _) => none
    | some (.table o ms) =>
      if origin = .dotted ∧ o = .header then none
      else (within origin change o ms path).map fun ms => members.assign name (.table o ms)
    | some (.tables closed ms) =>
      (within origin change .header ms path).map fun ms =>
        members.assign name (.tables closed ms)

-- Sets a key, which must be new, and must be the only kind of line that its table comes from.
def setKey (path : List String) (name : String) (e : Entry) (o : Origin) (members : Members) :
    Option Members :=
  within .dotted (fun o ms =>
    if (o = .dotted ↔ path = []) || (ms.lookup name).isSome then none
    else some (ms ++ [(name, .leaf e)])) o members path

def openTable (name : String) (members : Members) : Option Members :=
  match members.lookup name with
  | none => some (members ++ [(name, .table .header [])])
  | some (.table .implied ms) => some (members.assign name (.table .header ms))
  | some _ => none

def openNext (name : String) (members : Members) : Option Members :=
  match members.lookup name with
  | none => some (members ++ [(name, .tables [] [])])
  | some (.tables closed ms) => some (members.assign name (.tables (ms :: closed) []))
  | some _ => none

end Members

def skipGaps (inComment : Bool) : List Char → List Char
  | [] => []
  | '\n' :: rest => skipGaps false rest
  | '\r' :: '\n' :: rest => skipGaps false rest
  | c :: rest =>
    if inComment then if isInLine c then skipGaps true rest else c :: rest
    else if isBlank c then skipGaps false rest
    else if c == '#' then skipGaps true rest
    else c :: rest

def splitKey : List String → List String × String
  | [] => ([], "")
  | [name] => ([], name)
  | name :: names =>
    let (path, last) := splitKey names
    (name :: path, last)

mutual

/-- A value of any kind; every step into a container takes one of the `fuel`. -/
def readValue : Nat → List Char → Option (Entry × List Char)
  | 0, _ => none
  | fuel + 1, cs =>
    match cs with
    | '[' :: rest => (readItems fuel rest).map fun (items, rest) => (.list items, rest)
    | '\x7b' :: rest =>
      match skipBlanks rest with
      | '\x7d' :: rest => some (.table [], rest)
      | rest => (readPairs fuel [] rest).map fun (ms, rest) => (.table (Node.entries ms), rest)
    | cs =>
      if cs.head?.any fun c => c == '"' || c == '\'' then
        (readString cs).map fun (s, rest) => (.text s, rest)
      else readScalar cs

-- The items of a list from the next one on; a comma may stand behind the last.
def readItems : Nat → List Char → Option (List Entry × List Char)
  | 0, _ => none
  | fuel + 1, cs =>
    match skipGaps false cs with
    | ']' :: rest => some ([], rest)
    | cs => do
      let (e, rest) ← readValue fuel cs
      match skipGaps false rest with
      | ',' :: rest =>
        let (es, rest) ← readItems fuel rest
        return (e :: es, rest)
      | ']' :: rest => return ([e], rest)
      | _ => none

-- The members of a table in braces from the next one on, added to those `before`.
def readPairs : Nat → Members → List Char → Option (Members × List Char)
  | 0, _, _ => none
  | fuel + 1, before, cs => do
    let (key, rest) ← readKey (cs.length + 1) cs
    let (e, rest) ← readValue fuel (skipBlanks (← readMark? '=' rest))
    let (path, name) := splitKey key
    let members ← before.setKey path name e .header
    match skipBlanks rest with
    | ',' :: rest => readPairs fuel members rest
    | '\x7d' :: rest => return (members, rest)
    | _ => none

end

/-- What the lines read so far have set, and the path of the table that is open. -/
structure Document where
  members : Members := []
  path : List String := []

def Document.readStatement (d : Document) (cs : List Char) : Option (Document × List Char) :=
  match cs with
  | '[' :: '[' :: rest => do
    let (key, rest) ← readKey (rest.length + 1) rest
    let rest ← Text.after? "]]" rest
    let (path, name) := splitKey key
    let members ← d.members.within .implied (fun _ ms => ms.openNext name) .header path
    return (⟨members, key⟩, rest)
  | '[' :: rest => do
    let (key, rest) ← readKey (rest.length + 1) rest
    let rest ← readMark? ']' rest
    let (path, name) := splitKey key
    let members ← d.members.within .implied (fun _ ms => ms.openTable name) .header path
    return (⟨members, key⟩, rest)
  | cs =>
    if cs.head?.all fun c => c == '#' || c == '\n' || c == '\r' then some (d, cs)
    else do
      let (key, rest) ← readKey (cs.length + 1) cs
      let rest := skipBlanks (← readMark? '=' rest)
      let (e, rest) ← readValue (rest.length + 1) rest
      let (path, name) := splitKey key
      let members ← d.members.within .implied (fun o ms => ms.setKey path name e o) .header d.path
      return (⟨members, d.path⟩, rest)

-- Nothing but blanks and a comment may stand at the end of a line.
def endLine? (cs : List Char) : Option (List Char) :=
  let rest := skipBlanks cs
  let rest := if rest.head? == some '#' then rest.dropWhile isInLine else rest
  if rest.isEmpty then some [] else readLineEnd? rest

def Document.readLines (d : Document) : Nat → List Char → Option Document
  | 0, _ => none
  | fuel + 1, cs =>
    match skipBlanks cs with
    | [] => some d
    | cs => do
      let (d, rest) ← d.readStatement cs
      d.readLines fuel (← endLine? rest)

/-- The table that a text writes. -/
def read? (s : String) : Option (List (String × Entry)) :=
  let cs := s.toList
  (Document.readLines {} (cs.length + 1) cs).map fun d => Node.entries d.members

end BenchLedger.Toml
