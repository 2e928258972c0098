import BenchLedger.Configuration.Basic
import BenchLedger.Configuration.Layer
import BenchLedger.Configuration.Variables
import BenchLedger.Toml.Document
import BenchLedger.Workspace.Files

/-!
Loading a configuration. The defaults are the lowest layer, then comes a file in TOML or JSON, then
the variables whose names begin with `BENCHTRACK__`.
-/

namespace BenchLedger.Configuration

/-- The formats of configuration files, named by their extensions. -/
inductive Format where
  | toml
  | json
  deriving DecidableEq, Repr

def Format.ofExtension? : String → Option Format
  | "toml" => some .toml
  | "json" => some .json
  | _ => none

-- The part of a file's name behind its last point; a point at the start of the name does not count.
def extension? (path : Path) : Option String := do
  let pieces := Text.splitAt '.' (← path.getLast?).toList
  match pieces with
  | [[], _] => none
  | _ :: _ :: _ => pieces.getLast?.map String.ofList
  | _ => none

-- The entries of a configuration file. A mark of the byte order at its start is skipped.
def Format.read? (format : Format) (text : String) : Option (List (String × Entry)) :=
  let text := String.ofList ((Text.after? "\ufeff" text.toList).getD text.toList)
  match format with
  | .toml => Toml.read? text
  | .json =>
    let j := Json.read text
    match Entry.ofJson j with
    | .table members => if j.isKeepable Json.keptLevels then some members else none
    | _ => none

/-- The entries of the file at a path, or, if there is none, of the file whose extension the path
leaves out. -/
def fileEntries? (files : Files) (path : String) : Option (List (String × Entry)) :=
  let read? (path : Path) (text : String) : Option (List (String × Entry)) := do
    (← Format.ofExtension? (← extension? path)).read? text
  let path := Path.ofText path
  match files.text? path with
  | some text => read? path text
  | none => do
    let name ← path.getLast?
    let candidates := [".toml", ".json"].map fun ending => path.dropLast ++ [name ++ ending]
    let path ← candidates.find? fun path => (files.text? path).isSome
    read? path (← files.text? path)

def variableMark : String := "benchtrack__"

-- Two underscores stand for a point.
def pointed : List Char → List Char
  | '_' :: '_' :: cs => '.' :: pointed cs
  | c :: cs => c :: pointed cs
  | [] => []

-- The key that a variable sets, if its name begins with the mark in any case.
def variableKey? (name : String) : Option (List Char) :=
  (Text.after? variableMark (Text.lowercase name).toList).map pointed

-- One entry for each variable that sets a key; of two with one key the later counts.
def variableEntries (vars : Variables) : List (String × Entry) :=
  vars.foldl (fun entries (name, value) =>
    match variableKey? name with
    | some key => Entry.assign entries (String.ofList key) (.text value)
    | none => entries) []

def addLayer (members layer : List (String × Entry)) : List (String × Entry) :=
  layer.foldl (fun ms (key, e) => Entry.putAt ms (Entry.pathOf key.toList) e) members

def variablesFile : Path := [".env"]

/-- The configuration of a program that runs in a directory of files, with variables and perhaps
the path of a configuration file. -/
def load? (files : Files) (vars : Variables) (path : Option String) : Option Configuration := do
  let vars := match files.text? variablesFile with
    | some text => vars.withFile text
    | none => vars
  let fromFile ← match path with
    | some path => fileEntries? files path
    | none => some []
  decode? (addLayer (addLayer [] fromFile) (variableEntries vars))

end BenchLedger.Configuration
