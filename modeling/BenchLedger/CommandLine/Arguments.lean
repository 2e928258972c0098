import BenchLedger.Text.Split
import BenchLedger.Time.Reader

/-!
Arguments of commands: options by long and short names, whose values stand behind them or behind an
equals sign, and other arguments by their places. The value of an argument is checked when the next
argument is settled, so an option that is not known is noticed before a bad value in front of it.
-/

namespace BenchLedger.CommandLine

/-- Why arguments give no command to run. -/
inductive UsageError where
  | helpAsked
  | versionAsked
  | nothingGiven
  | commandMissing
  | commandUnknown
  | argumentUnknown
  | argumentMissing
  | argumentRepeated
  -- The value is missing or not among those that are allowed.
  | valueInvalid
  -- The value does not write what it should.
  | valueUnreadable
  -- A value is given where none is taken.
  | valueUnexpected
  deriving DecidableEq, Repr

inductive ValueKind where
  | text
  -- Not empty.
  | path
  | choice (words : List String)
  | instant
  deriving DecidableEq, Repr

def ValueKind.check : ValueKind → String → Except UsageError Unit
  | text, _ => .ok ()
  | path, s => if s.isEmpty then .error .valueInvalid else .ok ()
  | choice words, s => if words.contains s then .ok () else .error .valueInvalid
  | instant, s => if (Instant.read? s).isSome then .ok () else .error .valueUnreadable

inductive OptionKind where
  | value (kind : ValueKind)
  | switch
  | help
  | version
  deriving DecidableEq, Repr

structure OptionSpec where
  name : String
  short : Option Char := none
  kind : OptionKind
  deriving DecidableEq, Repr

/-- An argument that is known by its place. -/
structure PlaceSpec where
  name : String
  kind : ValueKind
  isRequired : Bool := true
  deriving DecidableEq, Repr

/-- What a command takes. -/
structure Grammar where
  options : List OptionSpec
  places : List PlaceSpec := []
  -- The commands that may follow.
  commands : List String := []
  deriving DecidableEq, Repr

/-- An argument that was met and not yet settled. -/
structure Pending where
  name : String
  kind : ValueKind
  -- Missing as long as an option waits for its value.
  value : Option String
  deriving DecidableEq, Repr

/-- What the arguments so far have given. -/
structure Scan where
  -- Settled arguments with their values; a switch has the empty text.
  given : List (String × String) := []
  pending : Option Pending := none
  -- The number of places that are taken.
  filled : Nat := 0
  deriving DecidableEq, Repr

namespace Scan

def store (s : Scan) (name : String) (kind : ValueKind) (value : String) :
    Except UsageError Scan := do
  if (s.given.lookup name).isSome then throw .argumentRepeated
  kind.check value
  return { s with given := s.given ++ [(name, value)], pending := none }

def settle (s : Scan) : Except UsageError Scan :=
  match s.pending with
  | none => .ok s
  | some p =>
    match p.value with
    | none => .error .valueInvalid
    | some value => s.store p.name p.kind value

def awaitsValue (s : Scan) : Bool :=
  s.pending.any (·.value.isNone)

def switchOn (s : Scan) (o : OptionSpec) : Except UsageError Scan := do
  let s ← s.settle
  match o.kind with
  | .help => throw .helpAsked
  | .version => throw .versionAsked
  | _ => s.store o.name .text ""

def takeOption (s : Scan) (o : OptionSpec) (kind : ValueKind) (value : Option String) :
    Except UsageError Scan := do
  let s ← s.settle
  match value with
  | some value => s.store o.name kind value
  | none => return { s with pending := some ⟨o.name, kind, none⟩ }

def takeLong (g : Grammar) (s : Scan) (cs : List Char) : Except UsageError Scan :=
  let (name, value) := Text.cutAt '=' cs
  match g.options.find? fun o => o.name.toList == name with
  | none => .error .argumentUnknown
  | some o =>
    match o.kind, value with
    | .value kind, value => s.takeOption o kind (value.map String.ofList)
    | _, some _ => .error .valueUnexpected
    | _, none => s.switchOn o

-- Options by their short names, of which only the last may take a value.
def takeShort (g : Grammar) (s : Scan) : List Char → Except UsageError Scan
  | [] => .ok s
  | c :: cs =>
    match g.options.find? (·.short == some c) with
    | none => .error .argumentUnknown
    | some o =>
      match o.kind with
      | .value kind =>
        match cs with
        | [] => s.takeOption o kind none
        | '=' :: value => s.takeOption o kind (some (String.ofList value))
        | value => s.takeOption o kind (some (String.ofList value))
      | _ => do
        let s ← s.switchOn o
        takeShort g s cs

-- An argument by its place. A command behind the end of options is no command.
def takePlace (g : Grammar) (s : Scan) (isTrailing : Bool) (arg : String) :
    Except UsageError Scan :=
  match g.places[s.filled]? with
  | some p => do
    let s ← s.settle
    return { s with pending := some ⟨p.name, p.kind, some arg⟩, filled := s.filled + 1 }
  | none =>
    if g.commands.isEmpty || (isTrailing && g.commands.contains arg) then .error .argumentUnknown
    else .error .commandUnknown

-- One argument in front of the end of options, which is written `--`.
def takeArgument (g : Grammar) (s : Scan) (arg : String) : Except UsageError Scan :=
  match arg.toList with
  | '-' :: '-' :: cs => takeLong g s cs
  | '-' :: c :: cs => takeShort g s (c :: cs)
  | _ =>
    match s.pending with
    | some p =>
      if p.value.isNone then .ok { s with pending := some { p with value := some arg } }
      else takePlace g s false arg
    | none => takePlace g s false arg

/-- Takes arguments up to a command, which is returned with the arguments behind it. -/
def run (g : Grammar) (isTrailing : Bool) (s : Scan) :
    List String → Except UsageError (Scan × Option (String × List String))
  | [] => .ok (s, none)
  | arg :: args =>
    if isTrailing then do
      let s ← takePlace g s true arg
      run g true s args
    else if !s.awaitsValue && g.commands.contains arg then .ok (s, some (arg, args))
    else if arg == "--" then run g true s args
    else do
      let s ← takeArgument g s arg
      run g false s args

def checkFallbacks (g : Grammar) (s : Scan) (fallbacks : List (String × String)) :
    Except UsageError Unit :=
  fallbacks.forM fun (name, value) =>
    match g.options.find? (·.name == name), s.given.lookup name with
    | some { kind := .value kind, .. }, none => kind.check value
    | _, _ => .ok ()

def finish (g : Grammar) (s : Scan) (fallbacks : List (String × String)) :
    Except UsageError Scan := do
  let s ← s.settle
  s.checkFallbacks g fallbacks
  return s

def checkPlaces (g : Grammar) (s : Scan) : Except UsageError Unit :=
  if g.places.all fun p => !p.isRequired || (s.given.lookup p.name).isSome then .ok ()
  else .error .argumentMissing

end Scan

end BenchLedger.CommandLine
