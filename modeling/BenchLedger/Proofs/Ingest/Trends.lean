import BenchLedger.Ledger.Query
import BenchLedger.Proofs.Ingest.Entries

/-!
# Trends of ingested runs

A trend has one point for each entry that the reports of the ingested runs count as stored, with
what the run said of it, in the order of the commits and, among commits of one time, in the order
of ingestion.  Other entries leave no point.  The ledger must keep the commits of those runs as
they came, as it does of runs that were read from a text.
-/

namespace BenchLedger

namespace Service

/-- The service after a run was handed in; a run with an invalid header leaves it as it is. -/
def afterRun (s : Service) (r : Run) : Service :=
  match s.ingestRun r with
  | .ok (_, s') => s'
  | .error _ => s

/-- The runs that were ingested, each with its report. -/
def reports (s : Service) : List Run → List (Run × Report)
  | [] => []
  | r :: runs =>
    match s.ingestRun r with
    | .ok (report, s') => (r, report) :: s'.reports runs
    | .error _ => s.reports runs

/-- The entries that the reports count as stored, each with its run, in the order of ingestion. -/
def storedEntries (reported : List (Run × Report)) : List (Run × Bench) :=
  reported.flatMap fun (r, report) => (Outcome.storedOf r.benches report.outcomes).map (r, ·)

/-- The report is one on that run: it names every entry in order. -/
structure ReportOn (r : Run) (report : Report) : Prop where
  tool : report.tool = r.tool
  commitId : report.commitId = r.commit.id
  names : report.outcomes.map (·.benchmark) = r.benches.map (·.name)

variable {kind : Ledger.Kind} {s s' : Service} {log : List Measurement}

theorem holds_ingestRun (h : Ledger.Holds kind s.ledger log) {r : Run} {report : Report}
    (hok : s.ingestRun r = .ok (report, s')) :
    ReportOn r report ∧
    ∃ added, List.Forall₂ r.Reports (Outcome.storedOf r.benches report.outcomes) added ∧
      Ledger.Holds kind s'.ledger (log ++ added) := by
  unfold ingestRun at hok
  split at hok
  case h_1 => exact absurd hok Fallible.error_ne_ok
  case h_2 =>
    have hpair := Except.ok.inj hok
    obtain ⟨hnames, hholds⟩ := holds_ingestEach h r.tool r.commit
      ((Slot.ofEntries [] r.entries).filterMap Slot.pending?)
    obtain ⟨hfill, hstored⟩ := Slot.fill_spec (Slot.forall₂_ofEntries r []) hnames
    obtain ⟨rfl, rfl⟩ := Prod.mk.inj hpair
    exact ⟨⟨rfl, rfl, hfill⟩, _, hstored, hholds⟩

theorem mem_of_mem_reports {runs : List Run} {r : Run} {report : Report}
    (h : (r, report) ∈ s.reports runs) : r ∈ runs := by
  induction runs generalizing s with
  | nil => exact absurd h List.not_mem_nil
  | cons first runs ih =>
    unfold reports at h
    split at h
    case h_1 report' s' hok =>
      rcases List.mem_cons.1 h with heq | h
      · exact (Prod.mk.inj heq).1 ▸ List.mem_cons_self
      · exact List.mem_cons_of_mem _ (ih h)
    case h_2 => exact List.mem_cons_of_mem _ (ih h)

theorem mem_of_mem_storedEntries {runs : List Run} {e : Run × Bench}
    (h : e ∈ storedEntries (s.reports runs)) : e.1 ∈ runs := by
  obtain ⟨⟨r, report⟩, hreport, he⟩ := List.mem_flatMap.1 h
  obtain ⟨b, -, rfl⟩ := List.mem_map.1 he
  exact mem_of_mem_reports hreport

-- Ingesting runs adds the measurements of the stored entries to the log, in their order.
theorem holds_afterRuns (h : Ledger.Holds kind s.ledger log) (runs : List Run) :
    ∃ added, List.Forall₂ (fun e m => e.1.Reports e.2 m) (storedEntries (s.reports runs)) added ∧
      Ledger.Holds kind (runs.foldl afterRun s).ledger (log ++ added) := by
  induction runs generalizing s log with
  | nil => exact ⟨[], .nil, by simpa using h⟩
  | cons r runs ih =>
    rw [List.foldl_cons]
    unfold reports
    cases hok : s.ingestRun r with
    | error e =>
      have hsame : s.afterRun r = s := by simp [afterRun, hok]
      rw [hsame]
      exact ih h
    | ok result =>
      obtain ⟨report, s'⟩ := result
      have hnext : s.afterRun r = s' := by simp [afterRun, hok]
      obtain ⟨-, added, hadded, hholds⟩ := holds_ingestRun h hok
      obtain ⟨rest, hrest, hafter⟩ := ih hholds
      rw [hnext]
      refine ⟨added ++ rest, ?_, by rwa [← List.append_assoc]⟩
      show List.Forall₂ _ (List.map _ _ ++ _) _
      refine List.rel_append ?_ hrest
      rw [List.forall₂_map_left_iff]
      exact hadded

end Service

/-- The point shows what the run says of the entry. -/
structure TrendPoint.Shows (p : TrendPoint) (e : Run × Bench) : Prop where
  commit : p.commit = e.1.commit
  -- numbers compare as equal but may differ in the sign of zero, which a table does not keep
  value : (e.2.value == p.value) = true
  range : ∃ range, RangeText.read? e.2.range = some range ∧ (range == p.range) = true
  unit : MeasureUnit.read? e.2.unit = some p.unit

theorem TimeRange.validate_eq_ok {range : TimeRange}
    (h : ∀ start ∈ range.start, ∀ stop ∈ range.stop, start ≤ stop) : range.validate = .ok () := by
  obtain ⟨_ | start, _ | stop⟩ := range
  · rfl
  · rfl
  · rfl
  · have hle := h start rfl stop rfl
    have hlt : ¬stop < start := by
      rw [Instant.lt_def]
      rw [Instant.le_def] at hle
      omega
    simp [validate, hlt]

namespace Service

variable {kind : Ledger.Kind} {l : Ledger} {log : List Measurement} {entries : List (Run × Bench)}

theorem exists_reports_of_mem (h : List.Forall₂ (fun e m => e.1.Reports e.2 m) entries log)
    {m : Measurement} (hm : m ∈ log) : ∃ e ∈ entries, e.1.Reports e.2 m := by
  obtain ⟨i, hi, rfl⟩ := List.getElem_of_mem hm
  have hi' : i < entries.length := h.length_eq ▸ hi
  exact ⟨entries[i], List.getElem_mem hi', h.get hi' hi⟩

end Service

/-- A run of one benchmark at the commit of that id, all else being fixed. -/
def runAt (commitId : String) (value : Float) : Run where
  tool := "cargo"
  commit := (Ledger.recordAt commitId).commit
  date := 0
  benches := [⟨"x", value, "± 1", "ns/iter"⟩]

namespace Service

end Service

end BenchLedger
