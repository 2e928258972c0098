import BenchLedger.CommandLine.Execution
import BenchLedger.Ledger.Archive

/-!
The program: it reads the files that a command may need, runs the command, and writes what has
changed.
-/

open BenchLedger

def systemVariables : IO Variables := do
  try
    let bytes ← IO.FS.readBinFile "/proc/self/environ"
    let text := Text.ofBytes (bytes.toList.map UInt8.toNat)
    return (Text.splitAt '\x00' text.toList).filterMap fun cs =>
      match Text.cutAt '=' cs with
      | (name, some value) => some (String.ofList name, String.ofList value)
      | (_, none) => none
  catch _ => return []

def textAt? (path : Path) : IO (Option String) := do
  try
    return some (← IO.FS.readFile path.text)
  catch _ => return none

def isDirectoryAt (path : Path) : IO Bool := do
  ((← IO.currentDir) / path.text).isDir

-- The files and directories at some paths, with the directories around them.
def filesAt (paths : List Path) : IO Files := do
  let mut files : Files := {}
  for path in paths.eraseDups do
    if let some text ← textAt? path then
      files := { files with entries := files.entries ++ [(path, text)] }
    for directory in [path, path.dropLast] do
      if ← isDirectoryAt directory then
        files := { files with directories := directory :: files.directories }
  return files

def configurationPaths (i : CommandLine.Invocation) : List Path :=
  Configuration.variablesFile :: match i.config with
    | some path => ["", ".toml", ".json"].map fun ending => Path.ofText (path ++ ending)
    | none => []

def commandPaths : CommandLine.Command → List Path
  | .ingest file _ _ output => Path.ofText file :: output.toList.map Path.ofText
  | .importHistory file _ _ => [Path.ofText file]
  | .exportHistory file _ _ => [Path.ofText file]
  | _ => []

def databasePath? (i : CommandLine.Invocation) (files : Files) (vars : Variables) :
    Option Path := do
  let c ← i.configuration? files vars
  match Location.ofUrl c.storage.databaseUrl with
  | .ok (.file path) => some path
  | _ => none

/-- The workspace as far as a command can see it. A file that holds an archive is a database. -/
def workspaceOf (i : CommandLine.Invocation) (vars : Variables) : IO Workspace := do
  let configuration := configurationPaths i
  let database? := databasePath? i (← filesAt configuration) vars
  let files ← filesAt (configuration ++ commandPaths i.command ++ database?.toList)
  let databases := files.entries.filterMap fun (path, text) =>
    if some path == database? then (Durable.ofArchive text).toOption.map (path, ·) else none
  return { files := { files with
             entries := files.entries.filter fun (path, _) => (databases.lookup path).isNone }
           databases }

def writeAt (path : Path) (text : String) : IO Unit := do
  if path.length > 1 then IO.FS.createDirAll (Path.text path.dropLast)
  IO.FS.writeFile path.text text

def writeChanges (before after : Workspace) : IO Unit := do
  for (path, text) in after.files.entries do
    if before.files.text? path != some text then writeAt path text
  for (path, d) in after.databases do
    if (before.databases.lookup path).map (·.rows) != some d.rows then writeAt path d.archive

def usageText : String :=
  "Usage: benchtrack [OPTIONS] <ingest|import|export|trend|latest|names> [ARGUMENTS]"

def explain (e : CommandLine.UsageError) : IO UInt32 := do
  match e with
  | .helpAsked => IO.println usageText; return 0
  | .versionAsked => IO.println "benchtrack 0.1.0"; return 0
  | _ => IO.eprintln ("error: invalid arguments\n\n" ++ usageText); return 2

def main (args : List String) : IO UInt32 := do
  let vars ← systemVariables
  match CommandLine.Invocation.read vars args with
  | .error e => explain e
  | .ok i =>
    let before ← workspaceOf i vars
    let (result, after) := i.run vars before
    writeChanges before after
    match result with
    | .ok ending =>
      IO.print ending.out
      IO.eprint ending.err
      return ending.exitCode.toUInt32
    | .error e =>
      IO.eprintln ("Error: " ++ e.message)
      return CommandLine.failureCode.toUInt32
