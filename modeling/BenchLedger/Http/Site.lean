import BenchLedger.Http.Exposition
import BenchLedger.Http.MediaType
import BenchLedger.Http.Message
import BenchLedger.Http.Query

/-!
The service behind HTTP: which paths there are, what each of them takes, and what it answers.
-/

namespace BenchLedger.Http

/-- A service, and whether its totals can be asked for. -/
structure Site where
  service : Service
  showsMetrics : Bool := false
  deriving DecidableEq, Repr

inductive Route where
  | runs
  | tools
  | benchmarks
  | trend
  | latest
  | health
  | metrics
  deriving DecidableEq, Repr

namespace Route

-- Paths are compared as they are written.
def ofPath? : String → Option Route
  | "/api/v1/runs" => some runs
  | "/api/v1/tools" => some tools
  | "/api/v1/benchmarks" => some benchmarks
  | "/api/v1/trend" => some trend
  | "/api/v1/latest" => some latest
  | "/health" => some health
  | "/metrics" => some metrics
  | _ => none

-- The methods of a path; where a thing can be got, its head can be asked for.
def methods : Route → List String
  | runs => ["POST"]
  | _ => ["GET", "HEAD"]

def allow (r : Route) : String :=
  ",".intercalate r.methods

end Route

def version : String := "0.1.0"

def bodyLimit : Nat := 2097152

-- The run that a request carries. Text behind the run is not read.
def runOf (r : Request) : Except Failure Run :=
  if !((r.contentType.bind MediaType.read?).any (·.isJson)) then
    .error (.invalidPayload "Expected request with `Content-Type: application/json`")
  else if bodyLimit < r.body.utf8ByteSize then
    .error (.invalidPayload "Failed to buffer the request body: length limit exceeded")
  else
    match Run.ofJson (Json.readLeading r.body).1 with
    | .ok run => .ok run
    | .error .malformed => .error (.invalidPayload "Failed to parse the request body as JSON")
    | .error .mismatched =>
      .error (.invalidPayload "Failed to deserialize the JSON body into the target type")

-- What is wrong with a query is not told.
def asked {α : Type} (params : Except QueryFault α) : Except Failure α :=
  params.mapError fun _ => .invalidQuery "Failed to deserialize query string"

def seriesAsked (query : List (String × String)) : Except QueryFault SeriesKey :=
  return ⟨← requiredValue query "tool", ← requiredValue query "benchmark"⟩

def spanAsked (query : List (String × String)) : Except QueryFault TimeRange :=
  return ⟨← optionalInstant query "from", ← optionalInstant query "to"⟩

namespace Site

def ledgerAnswer {α : Type} (r : Except LedgerError α) : Except Failure α :=
  r.mapError .ofLedger

def get (s : Site) (route : Route) (query : List (String × String)) : Except Failure Response := do
  let ledger := s.service.ledger
  match route with
  | .tools => return .json 200 (.ofStrings (← ledgerAnswer ledger.tools))
  | .benchmarks =>
    let tool ← asked (requiredValue query "tool")
    return .json 200 (.ofStrings (← ledgerAnswer (ledger.names tool)))
  | .trend =>
    let key ← asked (seriesAsked query)
    let span ← asked (spanAsked query)
    let points ← (ledger.trend key span).mapError .ofQuery
    return .json 200 (.array (points.map TrendPoint.toJson))
  | .latest =>
    let key ← asked (seriesAsked query)
    match ← ledgerAnswer (ledger.latest? key) with
    | some m => return .json 200 m.toJson
    | none => throw (.notFound ("no records for " ++ key.text))
  | .health =>
    let tools ← ledgerAnswer ledger.tools
    return .json 200 (.object [("status", .string "ok"), ("version", .string version),
      ("tools", .ofNat tools.length)])
  | .metrics =>
    if s.showsMetrics then
      return { status := 200, contentType := some "text/plain; version=0.0.4",
               body := exposition s.service.totals }
    else throw (.notFound "metrics exporter is not installed")
  | .runs => return { status := 405, allow := some route.allow }

-- Ingests the run of a request; what becomes of its measurements is in the report.
def post (s : Site) (r : Request) : Except Failure (Response × Site) := do
  let run ← runOf r
  let (report, service) ← (s.service.ingestRun run).mapError .ofRun
  return (.json 202 report.toJson, { s with service })

/-- The answer to a request, without the id, and the site after it. -/
def answer (s : Site) (now : Instant) (r : Request) : Response × Site :=
  let (path, query) := splitAddress r.address
  match Route.ofPath? (String.ofList path) with
  | none => ({ status := 404 }, s)
  | some route =>
    if !route.methods.contains r.method then
      ({ status := 405, allow := some route.allow }, s)
    else if route = .runs then
      match s.post r with
      | .ok result => result
      | .error f => (.failure now f, s)
    else
      let response := match s.get route (Text.readForm (query.getD [])) with
        | .ok response => response
        | .error f => .failure now f
      (if r.method == "HEAD" then response.head else response, s)

/-- The answer to a request under its id; `fresh` is the id of a request that brings none. -/
def handle (s : Site) (now : Instant) (fresh : String) (r : Request) : Response × Site :=
  let (response, s) := s.answer now r
  ({ response with requestId := r.answerId fresh }, s)

end Site

end BenchLedger.Http
