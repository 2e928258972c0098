import BenchLedger.Proofs.Ingest.Batch

/-!
# Requests to a service

A service is asked to ingest runs, or measurements under a header.  Either way it checks the header
and then takes the entries one by one, so that a sequence of requests is one loop over reports.
-/

namespace BenchLedger

inductive Request where
  | measurements (tool : String) (commit : Commit) (records : List Measurement)
  | run (r : Run)

namespace Request

def tool : Request → String
  | measurements tool _ _ => tool
  | run r => r.tool

def commit : Request → Commit
  | measurements _ commit _ => commit
  | run r => r.commit

def entries : Request → List (Except Rejection Measurement)
  | measurements _ _ records => records.map .ok
  | run r => r.entries

def validateHeader : Request → Except Invalid Unit
  | measurements tool commit _ =>
    if Text.isAllBlank tool then .error .emptyTool else commit.validate
  | run r => r.validateHeader

end Request

namespace Service

def handle (s : Service) : Request → Except InvalidRun (Report × Service)
  | .measurements tool commit records => s.ingest tool commit records
  | .run r => s.ingestRun r

theorem handle_eq (s : Service) (r : Request) :
    s.handle r =
      match r.validateHeader with
      | .error e => .error ⟨e⟩
      | .ok _ => .ok (s.ingestEntries r.tool r.commit r.entries) := by
  cases r with
  | run r => rfl
  | measurements tool commit records =>
    show s.ingest tool commit records = _
    rw [ingest, Request.validateHeader]
    by_cases hblank : Text.isAllBlank tool = true
    · rw [if_pos hblank, if_pos hblank]
    · rw [if_neg hblank, if_neg hblank]
      cases commit.validate <;> rfl

theorem ingestEntries_of_handle {s s' : Service} {r : Request} {report : Report}
    (hok : s.handle r = .ok (report, s')) :
    s.ingestEntries r.tool r.commit r.entries = (report, s') := by
  rw [handle_eq] at hok
  cases hheader : r.validateHeader with
  | error e =>
    rw [hheader] at hok
    exact absurd hok nofun
  | ok _ =>
    rw [hheader] at hok
    exact Except.ok.inj hok

/-- The service after some requests, and the reports on those that it carried out, each with the
commit of its header. -/
def serve (s : Service) : List Request → List (Commit × Report) × Service
  | [] => ([], s)
  | r :: rs =>
    match s.handle r with
    | .ok (report, s') => ((r.commit, report) :: (s'.serve rs).1, (s'.serve rs).2)
    | .error _ => s.serve rs

theorem serve_cons_ok {r : Request} (h : r.validateHeader = .ok ()) (s : Service)
    (rs : List Request) :
    s.serve (r :: rs) =
      let one := s.ingestEntries r.tool r.commit r.entries
      ((r.commit, one.1) :: (one.2.serve rs).1, (one.2.serve rs).2) := by
  rw [serve, handle_eq, h]

theorem serve_cons_error {r : Request} {e : Invalid} (h : r.validateHeader = .error e)
    (s : Service) (rs : List Request) : s.serve (r :: rs) = s.serve rs := by
  rw [serve, handle_eq, h]

end Service

end BenchLedger
