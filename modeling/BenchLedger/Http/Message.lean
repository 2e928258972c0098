import BenchLedger.Http.Failure
import BenchLedger.Json.Writer
import BenchLedger.Text.Split

/-!
Requests to the service and its responses. Every response carries the id of its request, which the
client may choose.
-/

namespace BenchLedger.Http

structure Request where
  method : String := "GET"
  -- The address as it was sent, with its query.
  address : String
  contentType : Option String := none
  requestId : Option String := none
  body : String := ""
  deriving DecidableEq, Repr

structure Response where
  status : Nat
  contentType : Option String := none
  -- The methods that the path does have.
  allow : Option String := none
  requestId : String := ""
  body : String := ""
  deriving DecidableEq, Repr

-- An id is taken over if it has 1 to 128 characters, all of them visible ASCII, blank or tab.
def isAcceptableId (id : String) : Bool :=
  let cs := id.toList
  !cs.isEmpty && cs.length ≤ 128 &&
    cs.all fun c => c == '\t' || (32 ≤ c.toNat && c.toNat < 127)

-- The id under which a request is answered, where `fresh` is one that nothing has yet.
def Request.answerId (r : Request) (fresh : String) : String :=
  match r.requestId with
  | some id => if isAcceptableId id then id else fresh
  | none => fresh

namespace Response

def json (status : Nat) (body : Json) : Response where
  status
  contentType := some "application/json"
  body := body.render

-- The form of all failures, with the time at which they happened.
def failure (now : Instant) (f : Failure) : Response :=
  json f.status (.object [
    ("error", .object [("code", .string f.code), ("message", .string f.message)]),
    ("meta", .object [("timestamp", .string now.text)])])

-- The response to the same request when only its head is asked for.
def head (r : Response) : Response :=
  { r with body := "" }

end Response

/-- The path of an address, and its query if it has one. A host in front and a fragment behind do
not count. -/
def splitAddress (address : String) : List Char × Option (List Char) :=
  let cs := (Text.cutAt '#' address.toList).1
  let (path, query) := Text.cutAt '?' cs
  let here := match Text.after? "http://" path <|> Text.after? "https://" path with
    | some rest => if rest.contains '/' then rest.dropWhile (· != '/') else ['/']
    | none => path
  (here, query)

end BenchLedger.Http
