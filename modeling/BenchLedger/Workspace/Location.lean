import BenchLedger.Text.Form
import BenchLedger.Workspace.Files

/-!
Addresses of databases, such as `sqlite://history.db`: a scheme, which may be missing, the path of a
file, and parameters behind a question mark.
-/

namespace BenchLedger

/-- Where a ledger is kept. -/
inductive Location where
  | file (path : Path)
  -- Nothing is left of it once the connection ends.
  | temporary
  deriving DecidableEq, Repr

namespace Location

/-- The parameters of an address cannot be followed. -/
inductive Fault where
  | unknownParameter (name : String)
  | unknownValue (name value : String)
  deriving DecidableEq, Repr

def Fault.message : Fault → String
  | unknownParameter name =>
    "unknown query parameter `" ++ name ++ "` while parsing connection URL"
  | unknownValue name value => "unknown value \"" ++ value ++ "\" for `" ++ name ++ "`"

-- The values that each parameter may have; of the name of a file system nothing is asked.
def allowedValues? : String → Option (List String)
  | "mode" => some ["ro", "rw", "rwc", "memory"]
  | "cache" => some ["private", "shared"]
  | "immutable" => some ["true", "1", "false", "0"]
  | "vfs" => some []
  | _ => none

def checkParameter (name value : String) : Except Fault Unit :=
  match allowedValues? name with
  | none => .error (.unknownParameter name)
  | some allowed =>
    if allowed.isEmpty || allowed.contains value then .ok () else .error (.unknownValue name value)

def dropScheme (cs : List Char) : List Char :=
  let cs := (Text.after? "sqlite://" cs).getD cs
  (Text.after? "sqlite:" cs).getD cs

/-- The location that an address names. -/
def ofUrl (url : String) : Except Fault Location := do
  let (name, parameters) := Text.cutAt '?' (dropScheme url.toList)
  let parameters := Text.readForm (parameters.getD [])
  parameters.forM fun (name, value) => checkParameter name value
  if name.isEmpty || name == ":memory:".toList || parameters.contains ("mode", "memory") then
    return .temporary
  else return .file (Path.ofText (Text.ofPercent name))

end Location

end BenchLedger
