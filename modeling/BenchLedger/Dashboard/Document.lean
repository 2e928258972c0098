import BenchLedger.Json.Writer
import BenchLedger.Order.Sorted
import BenchLedger.Run

/-!
The dashboard document: the whole history of a repository as runs grouped in suites. As a script it
is a JSON object assigned to a variable of the page; read back, the assignment may be missing.
-/

namespace BenchLedger

structure Dashboard where
  -- Milliseconds since the start of 1970.
  lastUpdate : Int
  repoUrl : String
  -- The runs of each suite, oldest first; suites in the order of their names, each once.
  entries : List (String × List Run)
  deriving DecidableEq, Repr, Inhabited

namespace Dashboard

def defaultSuite : String := "Rust Benchmark"

def variableName : String := "window.BENCHMARK_DATA"

-- Suites in the order of their names; of two with one name the later counts.
def orderSuites (entries : List (String × List Run)) : List (String × List Run) :=
  (Order.sortTexts (entries.map (·.1))).filterMap fun suite =>
    (entries.reverse.find? (·.1 == suite))

def runs (d : Dashboard) : List (String × Run) :=
  d.entries.flatMap fun (suite, runs) => runs.map (suite, ·)

def toJson (d : Dashboard) : Json :=
  .object [("lastUpdate", .ofInt d.lastUpdate), ("repoUrl", .string d.repoUrl),
    ("entries", .object (d.entries.map fun (suite, runs) => (suite, .array (runs.map Run.toJson))))]

def shape : Json.Shape Dashboard where
  fields := ["lastUpdate", "repoUrl", "entries"]
  required := ["lastUpdate", "repoUrl", "entries"]
  arity := 3
  empty := default
  set field j d :=
    match field with
    | "lastUpdate" => return { d with lastUpdate := ← j.asInt }
    | "repoUrl" => return { d with repoUrl := ← j.asString }
    | "entries" =>
      return { d with entries := orderSuites (← j.asMembers (Json.asList Run.ofJson)) }
    | _ => return d

def ofJson (j : Json) : Except Json.Failure Dashboard :=
  shape.decode j

-- The document of a script: without the assignment, the semicolons behind it, and blanks.
def unwrap (cs : List Char) : List Char :=
  let trimmed := Text.strip cs
  let body := match Text.after? variableName trimmed with
    | some rest => (Text.after? "=" (Text.dropBlanks rest)).getD rest
    | none => trimmed
  Text.dropTrailingBlanks ((Text.strip body).reverse.dropWhile (· == ';')).reverse

def read (s : String) : Except Json.Failure Dashboard :=
  Json.readAs ofJson (String.ofList (unwrap s.toList))

def toScript (d : Dashboard) : String :=
  variableName ++ " = " ++ d.toJson.renderIndented ++ "\n"

end Dashboard

end BenchLedger
