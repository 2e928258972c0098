import BenchLedger.Ingest.Service

/-!
Totals as text for a Prometheus server: for each metric a description, a type, and one line for each
tool. Ingestions are counted but not timed.
-/

namespace BenchLedger.Http

/-- A label between quotation marks. A backslash that escapes something already is not escaped
again; `pending` stands for one that was read and not yet written. -/
def escapeLabel (pending : Bool) : List Char → List Char
  | [] => if pending then ['\\', '\\'] else []
  | '\n' :: cs => '\\' :: 'n' :: escapeLabel pending cs
  | '"' :: cs => '\\' :: '"' :: escapeLabel false cs
  | '\\' :: cs =>
    if pending then '\\' :: '\\' :: escapeLabel false cs else escapeLabel true cs
  | c :: cs =>
    if pending then '\\' :: '\\' :: c :: escapeLabel false cs else c :: escapeLabel false cs

/-- One kind of number that is kept for each tool. -/
structure Metric where
  name : String
  description : String
  -- The word for the type of the metric.
  type : String
  -- What the name ends with in the lines for the tools.
  ending : String
  count : Totals → Nat

def metrics : List Metric := [
  ⟨"benchtrack_records_ingested_total", "Benchmark records stored and evaluated", "counter", "",
    (·.tally.stored)⟩,
  ⟨"benchtrack_records_duplicate_total", "Benchmark records already present", "counter", "",
    (·.tally.duplicate)⟩,
  ⟨"benchtrack_records_rejected_total", "Benchmark records rejected by validation", "counter", "",
    (·.tally.rejected)⟩,
  ⟨"benchtrack_store_failures_total", "Benchmark records hit by store failures", "counter", "",
    (·.tally.storeFailed)⟩,
  ⟨"benchtrack_regressions_total", "Regressed benchmark verdicts", "counter", "",
    (·.tally.regressed)⟩,
  ⟨"benchtrack_ingest_duration_seconds", "Wall time of one ingestion call", "summary", "_count",
    (·.ingestions)⟩]

def Metric.line (m : Metric) (t : Totals) : String :=
  m.name ++ m.ending ++ "\x7btool=\"" ++ String.ofList (escapeLabel false t.tool.toList) ++
    "\"\x7d " ++ Decimal.natText (m.count t) ++ "\n"

def Metric.exposition (m : Metric) (totals : List Totals) : String :=
  "# HELP " ++ m.name ++ " " ++ m.description ++ "\n# TYPE " ++ m.name ++ " " ++ m.type ++ "\n" ++
    String.join (totals.map m.line) ++ "\n"

-- A metric is described only once it has a value.
def exposition (totals : List Totals) : String :=
  if totals.isEmpty then "" else String.join (metrics.map (·.exposition totals))

end BenchLedger.Http
