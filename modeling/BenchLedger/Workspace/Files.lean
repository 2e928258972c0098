import BenchLedger.Text.Split

/-!
Text files in a directory and below it, by path. A directory is there if it is known or has a file
in it.
-/

namespace BenchLedger

/-- The names on the way to a file, the first being `/` where the way starts at the root. -/
abbrev Path := List String

namespace Path

def add (path : Path) (name : String) : Path :=
  if name == "" || name == "." then path
  else if name == ".." then
    match path.getLast? with
    | none => [".."]
    | some "/" => path
    | some ".." => path ++ [".."]
    | some _ => path.dropLast
  else path ++ [name]

def text : Path → String
  | "/" :: names => "/" ++ "/".intercalate names
  | names => "/".intercalate names

def ofText (s : String) : Path :=
  let names := (Text.splitAt '/' s.toList).map String.ofList
  names.foldl add (if s.toList.head? == some '/' then ["/"] else [])

end Path

inductive FileFault where
  | missing
  | alreadyExists
  | notDirectory
  | isDirectory
  -- Its bytes are no text.
  | notText
  deriving DecidableEq, Repr

def FileFault.message : FileFault → String
  | missing => "No such file or directory (os error 2)"
  | alreadyExists => "File exists (os error 17)"
  | notDirectory => "Not a directory (os error 20)"
  | isDirectory => "Is a directory (os error 21)"
  | notText => "stream did not contain valid UTF-8"

structure Files where
  entries : List (Path × String) := []
  -- Directories that are known without a file in them.
  directories : List Path := []
  deriving Repr, Inhabited

namespace Files

def ofList (files : List (String × String)) : Files where
  entries := files.map fun (path, text) => (Path.ofText path, text)

def text? (files : Files) (path : Path) : Option String :=
  files.entries.lookup path

-- The path is known as a directory, or some file is below it.
def isDirectory (files : Files) (path : Path) : Bool :=
  path.isEmpty || files.directories.contains path ||
    files.entries.any fun (p, _) => path.isPrefixOf p && path.length < p.length

-- A proper beginning of the path is a file.
def isBlocked (files : Files) (path : Path) : Bool :=
  files.entries.any fun (p, _) => p.isPrefixOf path && p.length < path.length

def read (files : Files) (path : Path) : Except FileFault String :=
  match files.text? path with
  | some text => .ok text
  | none =>
    if files.isDirectory path then .error .isDirectory
    else if files.isBlocked path then .error .notDirectory
    else .error .missing

-- The text under a path is set; the directories on the way are made.
def write (files : Files) (path : Path) (text : String) : Except FileFault Files :=
  if (files.text? path.dropLast).isSome then .error .alreadyExists
  else if files.isBlocked path then .error .notDirectory
  else if files.isDirectory path then .error .isDirectory
  else .ok { files with entries := (path, text) :: files.entries.filter (·.1 != path) }

theorem text?_of_write {files after : Files} {path : Path} {text : String}
    (h : files.write path text = .ok after) : after.text? path = some text := by
  unfold write at h
  split at h
  · cases h
  · split at h
    · cases h
    · split at h
      · cases h
      · cases h
        simp [text?]

end Files

end BenchLedger
