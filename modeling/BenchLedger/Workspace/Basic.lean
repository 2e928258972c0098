import BenchLedger.Ledger.Durable
import BenchLedger.Workspace.Location

/-!
The directory in which commands run, with its text files and the databases in it. A database comes
into being when it is connected to for the first time; the directory around it must be there.
-/

namespace BenchLedger

structure Workspace where
  files : Files := {}
  databases : List (Path × Durable) := []
  deriving Inhabited

namespace Workspace

-- The text of a file; a database is none.
def read (w : Workspace) (path : String) : Except FileFault String :=
  let path := Path.ofText path
  if (w.databases.lookup path).isSome then .error .notText else w.files.read path

def write (w : Workspace) (path text : String) : Except FileFault Workspace :=
  (w.files.write (Path.ofText path) text).map fun files => { w with files }

def cannotOpen : LedgerError :=
  .unavailable "error returned from database: (code: 14) unable to open database file"

def notADatabase : LedgerError :=
  .unavailable "error returned from database: (code: 26) file is not a database"

/-- The ledger in a file, which is empty at first. A text is not taken for a ledger. -/
def openFile (w : Workspace) (path : Path) : Except LedgerError Durable :=
  match w.databases.lookup path with
  | some d => .ok d.reopen
  | none =>
    if w.files.isDirectory path || !w.files.isDirectory path.dropLast then .error cannotOpen
    else if (w.files.text? path).any (!·.isEmpty) then .error notADatabase
    else .ok {}

-- The ledger at an address. No ledger can be opened in no time.
def connect (w : Workspace) (url : String) (timeoutMillis : Nat) :
    Except LedgerError (Location × Durable) :=
  match Location.ofUrl url with
  | .error e =>
    .error (.unavailable ("invalid database url: error with configuration: " ++ e.message))
  | .ok location => do
    if timeoutMillis = 0 then
      throw (.unavailable "pool timed out while waiting for an open connection")
    match location with
    | .temporary => return (.temporary, {})
    | .file path => return (.file path, ← w.openFile path)

def keep (w : Workspace) (location : Location) (d : Durable) : Workspace :=
  match location with
  | .temporary => w
  | .file path =>
    { files := { w.files with entries := w.files.entries.filter (·.1 != path) }
      databases := (path, d.close) :: w.databases.filter (·.1 != path) }

theorem openFile_keep (w : Workspace) (path : Path) (d : Durable) :
    (w.keep (.file path) d).openFile path = .ok d.reopen := by
  simp [keep, openFile, Durable.close, Durable.reopen]

end Workspace

end BenchLedger
