import BenchLedger.Proofs.Ingest.Isolation
import BenchLedger.Proofs.Ledger.Recordable

/-!
# Runs that are accepted whole

A run with a valid header, whose entries are measurements of different benchmarks, is stored entry
by entry if the ledger admits each of them.  Runs whose measurements can all be recorded together
leave a ledger that holds them in the order of the runs.
-/

namespace BenchLedger

/-- The header of the run is valid, and its entries are those measurements, each of a benchmark of
its own. -/
structure Run.States (r : Run) (ms : List Measurement) : Prop where
  header : r.validateHeader = .ok ()
  entries : r.entries = ms.map .ok
  names : (ms.map (·.name)).Nodup

theorem Run.States.proper {r : Run} {ms : List Measurement} {m : Measurement} (h : r.States ms)
    (hm : m ∈ ms) : m.Proper r.tool r.commit.id := by
  have hentry : .ok m ∈ r.entries := by
    rw [h.entries]
    exact List.mem_map_of_mem hm
  obtain ⟨b, -, hb⟩ := List.mem_map.1 hentry
  have hreports := Run.reports_of_measurement (Fallible.mapError_eq_ok.1 hb)
  exact ⟨hreports.valid, hreports.tool, congrArg Commit.id hreports.commit⟩

theorem Slot.ofEntries_map_ok {seen : List String} {ms : List Measurement}
    (hnames : (ms.map (·.name)).Nodup) (hfresh : ∀ m ∈ ms, m.name ∉ seen) :
    ofEntries seen (ms.map .ok) = ms.map pending := by
  induction ms generalizing seen with
  | nil => rfl
  | cons m ms ih =>
    obtain ⟨hname, hnames⟩ := List.nodup_cons.1 hnames
    obtain ⟨hm, hfresh⟩ := List.forall_mem_cons.1 hfresh
    have hrest : ∀ m' ∈ ms, m'.name ∉ m.name :: seen := by
      intro m' hm'
      rw [List.mem_cons, not_or]
      exact ⟨fun heq => hname (List.mem_map.2 ⟨m', hm', heq⟩), hfresh m' hm'⟩
    rw [List.map_cons, List.map_cons, ofEntries, if_neg (by simpa using hm), ih hnames hrest]

/-- Every run has a report, and every entry of it is stored. -/
structure ImportSummary.Accepts (i : ImportSummary) (runs : List (String × Run)) : Prop where
  skipped : i.skipped = []
  reports : List.Forall₂ (fun run report => Service.ReportOn run.2 report) runs i.reports
  stored : ∀ report ∈ i.reports, ∀ o ∈ report.outcomes, o.status.isStored = true

namespace Service

variable {kind : Ledger.Kind} {s : Service} {log ms : List Measurement} {r : Run}

theorem isStored_statusOf (h : Ledger.Holds kind s.ledger log) {tool : String} {commit : Commit}
    {m : Measurement} (hm : m.Proper tool commit.id) (hadmits : kind.Admits log m) :
    (s.statusOf tool commit m).isStored = true := by
  obtain ⟨receipt, hrecord, -⟩ := h.appendRecord_of_admits hadmits
  rw [Ledger.appendRecord_eq] at hrecord
  obtain ⟨receipt, hreceive, -⟩ := Fallible.map_eq_ok.1 hrecord
  rw [statusOf_of_proper hm, hreceive]
  exact (judge_spec _ _ _ _).1

/-- A run whose measurements are all admitted is stored whole. -/
theorem ingestEntries_of_admits (h : Ledger.Holds kind s.ledger log) (hr : r.States ms)
    (hadmits : ∀ m ∈ ms, kind.Admits log m) :
    let one := s.ingestEntries r.tool r.commit r.entries
    (∀ o ∈ one.1.outcomes, o.status.isStored = true) ∧
      Ledger.Holds kind one.2.ledger (log ++ ms) := by
  intro one
  have hslots : Slot.ofEntries [] r.entries = ms.map .pending := by
    rw [hr.entries]
    exact Slot.ofEntries_map_ok hr.names fun _ _ => List.not_mem_nil
  have hpending : Slot.pendingOf [] r.entries = ms := by
    rw [Slot.pendingOf, hslots, List.filterMap_map]
    exact List.filterMap_some
  have hstored : ∀ m ∈ ms, (s.statusOf r.tool r.commit m).isStored = true := fun m hm =>
    isStored_statusOf h (hr.proper hm) (hadmits m hm)
  have hone : one = _ := ingestEntries_eq s r.tool r.commit r.entries
  rw [hone, hpending]
  constructor
  · show ∀ o ∈ (Slot.ofEntries [] r.entries).map (Slot.outcome (s.outcomeOf r.tool r.commit)),
      o.status.isStored = true
    rw [hslots, List.map_map, List.forall_mem_map]
    exact hstored
  · show Ledger.Holds kind (s.ledger.putAll (s.storedOf r.tool r.commit ms)) (log ++ ms)
    rw [storedOf, List.filter_eq_self.2 hstored]
    exact h.putAll fun m hm => (hr.proper hm).valid

/-- Runs whose measurements can all be recorded together are accepted one after another. -/
theorem importRuns_of_recordable {runs : List (String × Run)} (states : Run → List Measurement)
    (h : Ledger.Holds kind s.ledger log) (hruns : ∀ run ∈ runs, run.2.States (states run.2))
    (hrecordable : Ledger.Recordable (log ++ runs.flatMap fun run => states run.2)) :
    (s.importRuns runs).1.Accepts runs ∧
      Ledger.Holds kind (s.importRuns runs).2.ledger
        (log ++ runs.flatMap fun run => states run.2) := by
  induction runs generalizing s log with
  | nil => exact ⟨⟨rfl, .nil, by simp [importRuns]⟩, by simpa [importRuns] using h⟩
  | cons run runs ih =>
    obtain ⟨hrun, hruns⟩ := List.forall_mem_cons.1 hruns
    rw [List.flatMap_cons] at hrecordable ⊢
    obtain ⟨hstored, hone⟩ := ingestEntries_of_admits h hrun fun m hm =>
      hrecordable.admits (List.mem_append_left _ hm)
    rw [← List.append_assoc] at hrecordable ⊢
    obtain ⟨hrest, hholds⟩ := ih hone hruns hrecordable
    rw [importRuns_cons_ok hrun.header]
    refine ⟨⟨hrest.skipped, .cons (reportOn_ingestEntries s run.2) hrest.reports, ?_⟩, hholds⟩
    exact List.forall_mem_cons.2 ⟨hstored, hrest.stored⟩

end Service

end BenchLedger
