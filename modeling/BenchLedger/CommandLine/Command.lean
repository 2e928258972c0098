import BenchLedger.CommandLine.Arguments
import BenchLedger.Configuration.Variables
import BenchLedger.Dashboard.Document
import BenchLedger.Trend

/-!
The commands and their arguments. The options for the configuration, the database and the log may
stand before a command or behind it; what stands behind it wins.
-/

namespace BenchLedger.CommandLine

inductive OutputFormat where
  | markdown
  | json
  deriving DecidableEq, Repr

inductive Command where
  | ingest (file : String) (failOnRegression : Bool) (format : OutputFormat)
      (output : Option String)
  | importHistory (file : String) (failOnRegression quiet : Bool)
  | exportHistory (file suite repoUrl : String)
  | trend (key : SeriesKey) (range : TimeRange) (format : OutputFormat)
  | latest (key : SeriesKey)
  -- The benchmarks of a tool, or all tools.
  | names (tool : Option String)
  deriving DecidableEq, Repr

/-- A command with what is set for it on its line. -/
structure Invocation where
  config : Option String := none
  database : Option String := none
  jsonLogs : Bool := false
  command : Command
  deriving DecidableEq, Repr

def helpOption : OptionSpec := ⟨"help", some 'h', .help⟩

def sharedOptions : List OptionSpec := [
  ⟨"config", some 'c', .value .path⟩, ⟨"database", none, .value .text⟩,
  ⟨"json-logs", none, .switch⟩, helpOption]

def formatOption : OptionSpec := ⟨"format", some 'f', .value (.choice ["markdown", "json"])⟩

def failOption : OptionSpec := ⟨"fail-on-regression", none, .switch⟩

def seriesPlaces : List PlaceSpec := [⟨"tool", .text, true⟩, ⟨"benchmark", .text, true⟩]

def commandGrammars : List (String × Grammar) := [
  ("ingest", {
    options := [failOption, formatOption, ⟨"output", some 'o', .value .path⟩]
    places := [⟨"file", .path, true⟩] }),
  ("import", {
    options := [failOption, ⟨"quiet", some 'q', .switch⟩]
    places := [⟨"file", .path, true⟩] }),
  ("export", {
    options := [⟨"suite", none, .value .text⟩, ⟨"repo-url", none, .value .text⟩]
    places := [⟨"file", .path, true⟩] }),
  ("trend", {
    options := [⟨"from", none, .value .instant⟩, ⟨"to", none, .value .instant⟩, formatOption]
    places := seriesPlaces }),
  ("latest", { options := [], places := seriesPlaces }),
  ("names", { options := [], places := [⟨"tool", .text, false⟩] })]

def helpCommand : String := "help"

def mainGrammar : Grammar where
  options := ⟨"version", some 'V', .version⟩ :: sharedOptions
  commands := commandGrammars.map (·.1) ++ [helpCommand]

-- The words behind the command for help name a command or nothing.
def helpOutcome : List String → UsageError
  | [] => .helpAsked
  | [name] => if mainGrammar.commands.contains name then .helpAsked else .commandUnknown
  | _ => .commandUnknown

def formatOf (given : List (String × String)) : OutputFormat :=
  if given.lookup "format" == some "json" then .json else .markdown

def instantOf (given : List (String × String)) (name : String) : Option Instant :=
  (given.lookup name).bind Instant.read?

def Command.ofGiven? (name : String) (given : List (String × String)) : Option Command :=
  let text (name default : String) : String := (given.lookup name).getD default
  let has (name : String) : Bool := (given.lookup name).isSome
  let key : SeriesKey := ⟨text "tool" "", text "benchmark" ""⟩
  match name with
  | "ingest" =>
    some (.ingest (text "file" "") (has "fail-on-regression") (formatOf given)
      (given.lookup "output"))
  | "import" => some (.importHistory (text "file" "") (has "fail-on-regression") (has "quiet"))
  | "export" =>
    some (.exportHistory (text "file" "") (text "suite" Dashboard.defaultSuite)
      (text "repo-url" ""))
  | "trend" =>
    some (.trend key ⟨instantOf given "from", instantOf given "to"⟩ (formatOf given))
  | "latest" => some (.latest key)
  | "names" => some (.names (given.lookup "tool"))
  | _ => none

def configVariable : String := "BENCHTRACK_CONFIG"

def fallbacksOf (vars : Variables) : List (String × String) :=
  ((vars.lookup configVariable).map fun path => ("config", path)).toList

/-- The command that arguments ask for. -/
def Invocation.read (vars : Variables) (args : List String) : Except UsageError Invocation := do
  let fallbacks := fallbacksOf vars
  let (outer, found) ← Scan.run mainGrammar false {} args
  match found with
  | none =>
    let outer ← outer.finish mainGrammar fallbacks
    throw (if (outer.given ++ fallbacks).isEmpty then .nothingGiven else .commandMissing)
  | some (name, args) =>
    let some own := commandGrammars.lookup name | throw (helpOutcome args)
    let grammar := { own with options := own.options ++ sharedOptions }
    let (inner, _) ← Scan.run grammar false {} args
    let inner ← inner.finish grammar fallbacks
    inner.checkPlaces grammar
    let outer ← outer.finish mainGrammar fallbacks
    let some command := Command.ofGiven? name inner.given | throw .commandUnknown
    let given := inner.given ++ outer.given
    return {
      config := (given ++ fallbacks).lookup "config"
      database := given.lookup "database"
      jsonLogs := (given.lookup "json-logs").isSome
      command }

end BenchLedger.CommandLine
