import BenchLedger.Http.Exposition
import BenchLedger.Proofs.Ingest.Alerts
import BenchLedger.Proofs.Ingest.Reachable
import BenchLedger.Proofs.Order.Grouping

/-!
# Totals

Of every entry that is handed in for a tool under a valid header just one of four totals takes note:
it was stored, recorded before, rejected, or the ledger failed.  What was stored is what the ledger
holds of the tool, and the regressions are the alerts that were raised.
-/

namespace BenchLedger

namespace Tally

/-- A number that is read off a tally, such that it adds up with the tallies. -/
structure Additive (f : Tally → Nat) : Prop where
  zero : f {} = 0
  add : ∀ a b, f (a + b) = f a + f b

-- The entries that a tally counts: each of them as one of these four.
def entries (t : Tally) : Nat :=
  t.stored + t.duplicate + t.rejected + t.storeFailed

theorem additive_stored : Additive stored where
  zero := rfl
  add a b := by
    show a.evaluated + b.evaluated + (a.analysisFailed + b.analysisFailed) = _
    unfold stored
    omega

theorem additive_duplicate : Additive (·.duplicate) := ⟨rfl, fun _ _ => rfl⟩

theorem additive_rejected : Additive (·.rejected) := ⟨rfl, fun _ _ => rfl⟩

theorem additive_storeFailed : Additive (·.storeFailed) := ⟨rfl, fun _ _ => rfl⟩

theorem additive_regressed : Additive (·.regressed) := ⟨rfl, fun _ _ => rfl⟩

theorem additive_entries : Additive entries where
  zero := rfl
  add a b := by
    have hstored := additive_stored.add a b
    have hduplicate := additive_duplicate.add a b
    have hrejected := additive_rejected.add a b
    have hstoreFailed := additive_storeFailed.add a b
    unfold entries
    omega

-- A number that is 1 for some of the items and 0 for the others counts them.
theorem Additive.sum_eq_countP {f : Tally → Nat} (h : Additive f) {α : Type} {tally : α → Tally}
    {p : α → Bool} (hp : ∀ a, f (tally a) = if p a then 1 else 0) (l : List α) :
    f (sum (l.map tally)) = l.countP p := by
  have hfrom : ∀ t, f ((l.map tally).foldl (· + ·) t) = f t + l.countP p := by
    induction l with
    | nil => exact fun _ => rfl
    | cons a l ih =>
      intro t
      rw [List.map_cons, List.foldl_cons, ih, h.add, hp, List.countP_cons]
      omega
  rw [sum, hfrom, h.zero, Nat.zero_add]

end Tally

namespace Report

theorem stored_tally (r : Report) : r.tally.stored = r.outcomes.countP (·.status.isStored) := by
  refine Tally.additive_stored.sum_eq_countP (fun o => ?_) r.outcomes
  cases o.status <;> rfl

theorem entries_tally (r : Report) : r.tally.entries = r.outcomes.length := by
  rw [← List.countP_true]
  refine Tally.additive_entries.sum_eq_countP (fun o => ?_) r.outcomes
  cases o.status <;> rfl

theorem regressed_tally (r : Report) : r.tally.regressed = r.regressions.length := by
  rw [regressions, ← List.countP_eq_length_filter, verdicts, List.countP_filterMap]
  refine Tally.additive_regressed.sum_eq_countP (fun o => ?_) r.outcomes
  cases o.status <;> rfl

end Report

/-- What the totals say of a tool; for a tool that they do not name nothing was counted. -/
def Totals.tallyOf (tool : String) (totals : List Totals) : Tally :=
  ((totals.find? (·.tool = tool)).map (·.tally)).getD {}

-- Only the totals of its own tool take note of an ingestion.
theorem Totals.tallyOf_record {f : Tally → Nat} (h : Tally.Additive f) (tool tool' : String)
    (tally : Tally) (totals : List Totals) :
    f (tallyOf tool (record tool' tally totals)) =
      f (tallyOf tool totals) + if tool' = tool then f tally else 0 := by
  induction totals with
  | nil =>
    by_cases htool : tool' = tool
    · simp [tallyOf, record, htool, h.zero]
    · simp [tallyOf, record, htool]
  | cons t totals ih =>
    unfold tallyOf at ih ⊢
    rw [record]
    by_cases hrecorded : t.tool = tool'
    · rw [if_pos hrecorded]
      by_cases htool : t.tool = tool
      · simp [htool, ← hrecorded, h.add]
      · simp [htool, ← hrecorded]
    · rw [if_neg hrecorded]
      by_cases htool : t.tool = tool
      · have hne : tool' ≠ tool := fun heq => hrecorded (htool.trans heq.symm)
        simp [htool, hne]
      · simpa [htool] using ih

/-- The number that the metric of that name shows for a tool, 0 where it shows none. -/
def Http.reading (name tool : String) (totals : List Totals) : Nat :=
  ((metrics.find? (·.name = name)).bind fun m =>
    (totals.find? (·.tool = tool)).map m.count).getD 0

theorem Http.reading_eq {f : Tally → Nat} (h : Tally.Additive f) {name : String} {m : Metric}
    (hm : metrics.find? (·.name = name) = some m) (hcount : ∀ t, m.count t = f t.tally)
    (tool : String) (totals : List Totals) :
    reading name tool totals = f (Totals.tallyOf tool totals) := by
  unfold reading Totals.tallyOf
  rw [hm]
  cases totals.find? (·.tool = tool) with
  | none => exact h.zero.symm
  | some t => exact hcount t

namespace Ledger

variable {kind : Kind} {l : Ledger} {log : List Measurement}

/-- The number of records that a ledger holds of a tool. -/
def holdings (l : Ledger) (tool : String) : Nat :=
  match l with
  | resident r => r.records.countP (·.tool = tool)
  | durable d => d.rows.countP (·.tool = tool)

theorem holdings_putAll (l : Ledger) (ms : List Measurement) (tool : String) :
    (l.putAll ms).holdings tool = l.holdings tool + ms.countP (·.tool = tool) := by
  cases l with
  | resident r =>
    rw [putAll_resident]
    show List.countP _ (ms.foldl Resident.push r).records = _
    rw [Resident.records_foldl_push, List.countP_append]
    rfl
  | durable d =>
    rw [putAll_durable]
    show List.countP _ (ms.foldl Durable.insert d).rows = _
    rw [Durable.rows_foldl_insert, List.countP_append, List.countP_map]
    rfl

theorem Holds.holdings_eq (h : Holds kind l log) (tool : String) :
    l.holdings tool = log.countP (·.tool = tool) := by
  cases h with
  | resident h => rw [← h.records]; rfl
  | durable h =>
    show List.countP _ _ = _
    rw [h.rows, List.countP_map]
    rfl

/-- The records that a ledger holds of a tool are those of all its series. -/
theorem Holds.holdings_eq_length (h : Holds kind l log) {tool : String} {names : List String}
    (hnames : l.names tool = .ok names) {series : String → Series}
    (hseries : ∀ name ∈ names, l.series ⟨tool, name⟩ = .ok (series name)) :
    l.holdings tool = (names.flatMap fun name => (series name).records).length := by
  obtain ⟨names', heq, hlisted⟩ := h.names tool
  obtain rfl := Except.ok.inj (hnames.symm.trans heq)
  have hseries : (names.flatMap fun name => (series name).records).Perm
      ((names.flatMap fun name => (log.filter (·.tool = tool)).filter (·.name = name)).map
        kind.keep) := by
    rw [List.map_flatMap]
    refine List.Perm.flatMap_left names fun name hname => ?_
    have hkey : (log.filter (·.tool = tool)).filter (·.name = name) =
        log.filter (·.key = ⟨tool, name⟩) := by
      rw [List.filter_filter]
      refine List.filter_congr fun m _ => ?_
      simp [Measurement.key, SeriesKey.mk.injEq, Bool.and_comm]
    rw [hkey]
    exact h.series_ok (hseries name hname)
  have hall : (names.flatMap fun name => (log.filter (·.tool = tool)).filter (·.name = name)).Perm
      (log.filter (·.tool = tool)) := by
    refine Order.flatMap_filter_perm_of_mem Measurement.name hlisted.nodup fun m hm => ?_
    obtain ⟨hlog, htool⟩ := List.mem_filter.1 hm
    exact (hlisted.mem_iff m.name).2 ⟨m, hlog, of_decide_eq_true htool, rfl⟩
  rw [h.holdings_eq, hseries.length_eq, List.length_map, hall.length_eq,
    List.countP_eq_length_filter]

end Ledger

namespace Service

variable {s : Service} {tool tool' : String} {commit : Commit} {n : Nat}

theorem isStored_reportOf (s : Service) (tool : String) (commit : Commit)
    (entries : List (Except Rejection Measurement)) :
    (s.reportOf tool commit entries).outcomes.countP (·.status.isStored) =
      (s.storedOf tool commit (Slot.pendingOf [] entries)).length := by
  rw [storedOf, ← List.countP_eq_length_filter, Slot.pendingOf, List.countP_filterMap, reportOf,
    List.countP_map]
  refine List.countP_congr fun slot hslot => ?_
  cases slot with
  | settled o =>
    -- a settled entry was not stored and is not pending
    show o.status.isStored = true ↔ _
    rw [Slot.not_stored_of_settled hslot]
    rfl
  | pending m => rfl

theorem tool_of_mem_storedOf {ms : List Measurement} {m : Measurement}
    (h : m ∈ s.storedOf tool commit ms) : m.tool = tool :=
  (proper_of_isStored (List.mem_filter.1 h).2).tool

theorem tool_of_mem_alertsOf {ms : List Measurement} {a : Alert}
    (h : a ∈ s.alertsOf tool commit ms) : a.verdict.tool = tool := by
  obtain ⟨m, -, ha⟩ := List.mem_flatMap.1 h
  obtain ⟨v, outOfOrder, hstatus, -, rfl⟩ := Status.mem_alerts.1 ha
  exact (statusOf_evaluated hstatus).1.tool

-- Items that are all of one tool count for that tool only.
private theorem countP_tool {α : Type} (toolOf : α → String) {l : List α}
    (h : ∀ a ∈ l, toolOf a = tool') (tool : String) :
    l.countP (fun a => toolOf a = tool) = if tool' = tool then l.length else 0 := by
  by_cases htool : tool' = tool
  · rw [if_pos htool, List.countP_eq_length]
    exact fun a ha => decide_eq_true ((h a ha).trans htool)
  · rw [if_neg htool, List.countP_eq_zero]
    exact fun a ha heq => htool ((h a ha).symm.trans (of_decide_eq_true heq))

/-- The totals of a tool account for the `n` entries that were handed in for it, for what the
ledger holds of it and for the alerts about it. -/
structure Accounts (s : Service) (tool : String) (n : Nat) : Prop where
  entries : (Totals.tallyOf tool s.totals).entries = n
  stored : (Totals.tallyOf tool s.totals).stored = s.ledger.holdings tool
  regressed : (Totals.tallyOf tool s.totals).regressed = s.alerts.countP (·.verdict.tool = tool)

theorem accounts_empty (kind : Ledger.Kind) (settings : Analysis.Settings) (tool : String) :
    Accounts { settings, ledger := kind.empty } tool 0 where
  entries := rfl
  stored := by cases kind <;> rfl
  regressed := rfl

/-- Ingesting some entries, the totals of their tool take note of each, those of the other tools
of none. -/
theorem Accounts.ingestEntries (h : s.Accounts tool n) (tool' : String) (commit : Commit)
    (entries : List (Except Rejection Measurement)) :
    (s.ingestEntries tool' commit entries).2.Accounts tool
      (n + if tool' = tool then entries.length else 0) := by
  let report := s.reportOf tool' commit entries
  have hentries : report.tally.entries = entries.length := by
    have hnames := congrArg List.length (s.benchmark_reportOf tool' commit entries)
    rw [List.length_map, List.length_map] at hnames
    rw [Report.entries_tally]
    exact hnames
  have hstored : report.tally.stored =
      (s.storedOf tool' commit (Slot.pendingOf [] entries)).length := by
    rw [Report.stored_tally]
    exact s.isStored_reportOf tool' commit entries
  have hregressed : report.tally.regressed =
      (s.alertsOf tool' commit (Slot.pendingOf [] entries)).length := by
    rw [Report.regressed_tally, ← s.map_regressions_reportOf tool' commit entries, List.length_map]
  rw [ingestEntries_eq]
  constructor
  · show Tally.entries (Totals.tallyOf tool (Totals.record tool' report.tally s.totals)) = _
    rw [Totals.tallyOf_record Tally.additive_entries, h.entries, hentries]
  · show Tally.stored (Totals.tallyOf tool (Totals.record tool' report.tally s.totals)) =
      (s.ledger.putAll _).holdings tool
    rw [Totals.tallyOf_record Tally.additive_stored, Ledger.holdings_putAll, h.stored, hstored,
      countP_tool Measurement.tool (fun m hm => tool_of_mem_storedOf hm) tool]
  · show Tally.regressed (Totals.tallyOf tool (Totals.record tool' report.tally s.totals)) =
      List.countP _ (s.alerts ++ _)
    rw [Totals.tallyOf_record Tally.additive_regressed, List.countP_append, h.regressed,
      hregressed, countP_tool (·.verdict.tool) (fun a ha => tool_of_mem_alertsOf ha) tool]

/-- The requests that are carried out; the others fail, and the service stays as it is. -/
def carriedOut (s : Service) : List Request → List Request
  | [] => []
  | r :: rs =>
    match s.handle r with
    | .ok (_, s') => r :: s'.carriedOut rs
    | .error _ => s.carriedOut rs

end Service

/-- The entries of the requests that are made for a tool. -/
def Request.entriesFor (tool : String) (requests : List Request) :
    List (Except Rejection Measurement) :=
  (requests.filter (·.tool = tool)).flatMap Request.entries

theorem Request.length_entriesFor_cons (tool : String) (r : Request) (rs : List Request) :
    (entriesFor tool (r :: rs)).length =
      (if r.tool = tool then r.entries.length else 0) + (entriesFor tool rs).length := by
  unfold entriesFor
  by_cases htool : r.tool = tool
  · simp [htool]
  · simp [htool]

namespace Service

variable {s : Service} {tool : String} {n : Nat}

theorem carriedOut_cons_ok {r : Request} (h : r.validateHeader = .ok ()) (s : Service)
    (rs : List Request) :
    s.carriedOut (r :: rs) =
      r :: (s.ingestEntries r.tool r.commit r.entries).2.carriedOut rs := by
  rw [carriedOut, handle_eq, h]

theorem carriedOut_cons_error {r : Request} {e : Invalid} (h : r.validateHeader = .error e)
    (s : Service) (rs : List Request) : s.carriedOut (r :: rs) = s.carriedOut rs := by
  rw [carriedOut, handle_eq, h]

theorem Accounts.serve (h : s.Accounts tool n) (requests : List Request) :
    (s.serve requests).2.Accounts tool
      (n + (Request.entriesFor tool (s.carriedOut requests)).length) := by
  induction requests generalizing s n with
  | nil => exact h
  | cons r requests ih =>
    cases hheader : r.validateHeader with
    | error e =>
      rw [serve_cons_error hheader, carriedOut_cons_error hheader]
      exact ih h
    | ok _ =>
      have hrest := ih (h.ingestEntries r.tool r.commit r.entries)
      rw [serve_cons_ok hheader, carriedOut_cons_ok hheader]
      rw [Request.length_entriesFor_cons, ← Nat.add_assoc]
      exact hrest

-- Requests that fail leave no trace.
theorem serve_carriedOut (s : Service) (requests : List Request) :
    s.serve (s.carriedOut requests) = s.serve requests := by
  induction requests generalizing s with
  | nil => rfl
  | cons r requests ih =>
    cases hheader : r.validateHeader with
    | error e => rw [carriedOut_cons_error hheader, serve_cons_error hheader, ih]
    | ok _ =>
      rw [carriedOut_cons_ok hheader, serve_cons_ok hheader, serve_cons_ok hheader]
      dsimp only
      rw [ih]

theorem serve_append (s : Service) (requests requests' : List Request) :
    (s.serve (requests ++ requests')).2 = ((s.serve requests).2.serve requests').2 := by
  induction requests generalizing s with
  | nil => rfl
  | cons r requests ih =>
    rw [List.cons_append]
    cases hheader : r.validateHeader with
    | error e => rw [serve_cons_error hheader, serve_cons_error hheader, ih]
    | ok _ =>
      rw [serve_cons_ok hheader, serve_cons_ok hheader]
      exact ih _

-- The runs of a document are served as if each were handed in by itself.
theorem importRuns_eq_serve (s : Service) (runs : List (String × Run)) :
    (s.importRuns runs).2 = (s.serve (runs.map fun run => .run run.2)).2 := by
  induction runs generalizing s with
  | nil => rfl
  | cons run runs ih =>
    obtain ⟨suite, run⟩ := run
    have hrun : (Request.run run).validateHeader = run.validateHeader := rfl
    rw [List.map_cons]
    cases hheader : run.validateHeader with
    | error e =>
      rw [importRuns_cons_error hheader, serve_cons_error (hrun.trans hheader)]
      exact ih s
    | ok _ =>
      rw [importRuns_cons_ok hheader, serve_cons_ok (hrun.trans hheader)]
      exact ih _

end Service

/-- What is handed in to a service at one time: a request, or a document with its runs. -/
inductive Intake where
  | request (r : Request)
  | dashboard (d : Dashboard)

def Intake.requests : Intake → List Request
  | request r => [r]
  | dashboard d => d.runs.map fun run => .run run.2

namespace Service

variable {kind : Ledger.Kind} {s : Service}

/-- The service after that; a request that fails leaves it as it was. -/
def take (s : Service) : Intake → Service
  | .request r =>
    match s.handle r with
    | .ok (_, s') => s'
    | .error _ => s
  | .dashboard d => (s.importDashboard d).2

theorem take_eq_serve (s : Service) (i : Intake) : s.take i = (s.serve i.requests).2 := by
  cases i with
  | request r =>
    rw [take, Intake.requests, serve]
    cases s.handle r <;> rfl
  | dashboard d => exact s.importRuns_eq_serve d.runs

theorem foldl_take (s : Service) (intakes : List Intake) :
    intakes.foldl take s = (s.serve (intakes.flatMap Intake.requests)).2 := by
  induction intakes generalizing s with
  | nil => rfl
  | cons i intakes ih =>
    rw [List.foldl_cons, ih, take_eq_serve, List.flatMap_cons, serve_append]

theorem reachable_foldl_take (h : Ledger.Reachable kind s.ledger) (intakes : List Intake) :
    Ledger.Reachable kind (intakes.foldl take s).ledger := by
  induction intakes generalizing s with
  | nil => exact h
  | cons i intakes ih =>
    refine ih ?_
    cases i with
    | request r =>
      rw [take]
      cases hok : s.handle r with
      | error e => exact h
      | ok one => exact h.request r hok
    | dashboard d => exact h.dashboard d

theorem accounts_foldl_take (kind : Ledger.Kind) (settings : Analysis.Settings)
    (intakes : List Intake) (tool : String) :
    let start : Service := { settings, ledger := kind.empty }
    (intakes.foldl take start).Accounts tool
      (Request.entriesFor tool (start.carriedOut (intakes.flatMap Intake.requests))).length := by
  intro start
  have haccounts :=
    (accounts_empty kind settings tool).serve (intakes.flatMap Intake.requests)
  rw [Nat.zero_add] at haccounts
  rwa [foldl_take]

/-- Whatever is handed in to a service with an empty ledger, for each tool the metrics account for
it: the records ingested are the records that the ledger holds, in all series of the tool; together
with those that were duplicates, rejected, or hit by a failing ledger they are the entries that were
handed in under valid headers; and the regressions are the alerts.  What comes under a header that
is not valid changes nothing. -/
theorem metrics_account (kind : Ledger.Kind) (settings : Analysis.Settings)
    (intakes : List Intake) (tool : String) :
    let start : Service := { settings, ledger := kind.empty }
    let requests := intakes.flatMap Intake.requests
    let s := intakes.foldl take start
    let shown name := Http.reading name tool s.totals
    shown "benchtrack_records_ingested_total" = s.ledger.holdings tool ∧
    (∀ names (series : String → Series), s.ledger.names tool = .ok names →
      (∀ name ∈ names, s.ledger.series ⟨tool, name⟩ = .ok (series name)) →
        s.ledger.holdings tool = (names.flatMap fun name => (series name).records).length) ∧
    shown "benchtrack_records_ingested_total" + shown "benchtrack_records_duplicate_total" +
        shown "benchtrack_records_rejected_total" + shown "benchtrack_store_failures_total" =
      (Request.entriesFor tool (start.carriedOut requests)).length ∧
    shown "benchtrack_regressions_total" = s.alerts.countP (·.verdict.tool = tool) ∧
    (∀ r e, s.handle r = .error e → s.take (.request r) = s) ∧
    s = (start.serve (start.carriedOut requests)).2 := by
  intro start requests s shown
  have haccounts := accounts_foldl_take kind settings intakes tool
  have hempty : Ledger.Reachable kind start.ledger := .empty
  obtain ⟨log, hlog⟩ := (reachable_foldl_take hempty intakes).exists_log
  have hingested : shown "benchtrack_records_ingested_total" = _ :=
    Http.reading_eq Tally.additive_stored rfl (fun _ => rfl) tool s.totals
  have hduplicate : shown "benchtrack_records_duplicate_total" = _ :=
    Http.reading_eq Tally.additive_duplicate rfl (fun _ => rfl) tool s.totals
  have hrejected : shown "benchtrack_records_rejected_total" = _ :=
    Http.reading_eq Tally.additive_rejected rfl (fun _ => rfl) tool s.totals
  have hstoreFailed : shown "benchtrack_store_failures_total" = _ :=
    Http.reading_eq Tally.additive_storeFailed rfl (fun _ => rfl) tool s.totals
  have hregressed : shown "benchtrack_regressions_total" = _ :=
    Http.reading_eq Tally.additive_regressed rfl (fun _ => rfl) tool s.totals
  refine ⟨hingested.trans haccounts.stored,
    fun names series hnames hseries => hlog.holds.holdings_eq_length hnames hseries, ?_,
    hregressed.trans haccounts.regressed, ?_, ?_⟩
  · rw [hingested, hduplicate, hrejected, hstoreFailed]
    exact haccounts.entries
  · intro r e hfail
    rw [take, hfail]
  · rw [serve_carriedOut]
    exact foldl_take start intakes

end Service

end BenchLedger
