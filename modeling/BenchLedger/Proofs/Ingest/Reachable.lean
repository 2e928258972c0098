import BenchLedger.Proofs.Ingest.Requests
import BenchLedger.Proofs.Ingest.Trends
import BenchLedger.Proofs.Ledger.Coherence

/-!
# Reachable ledgers

The ledgers that calls and ingestions make of an empty one, and those that ingested runs alone make
of it.  Each holds a log whose series are coherent; a log of runs consists of what the runs report.
-/

namespace BenchLedger

/-- What calls of a ledger and services that ingest into it make of an empty ledger. -/
inductive Ledger.Reachable (kind : Kind) : Ledger → Prop where
  | empty : Reachable kind kind.empty
  | call {l : Ledger} (h : Reachable kind l) (c : Call) : Reachable kind (l.after c)
  | request {s s' : Service} {report : Report} (h : Reachable kind s.ledger) (r : Request)
    (hok : s.handle r = .ok (report, s')) : Reachable kind s'.ledger
  | dashboard {s : Service} (h : Reachable kind s.ledger) (d : Dashboard) :
    Reachable kind (s.importDashboard d).2.ledger

/-- What services that ingest runs, one by one or of a document, make of an empty ledger. -/
inductive Ledger.OfRuns (kind : Kind) : Ledger → Prop where
  | empty : OfRuns kind kind.empty
  | run {s s' : Service} {report : Report} (h : OfRuns kind s.ledger) (r : Run)
    (hok : s.ingestRun r = .ok (report, s')) : OfRuns kind s'.ledger
  | dashboard {s : Service} (h : OfRuns kind s.ledger) (d : Dashboard) :
    OfRuns kind (s.importDashboard d).2.ledger

theorem Ledger.OfRuns.afterRun {kind : Kind} {s : Service} (h : OfRuns kind s.ledger) (r : Run) :
    OfRuns kind (s.afterRun r).ledger := by
  unfold Service.afterRun
  split
  case h_1 hok => exact h.run r hok
  case h_2 => exact h

theorem Ledger.Reachable.afterRun {kind : Kind} {s : Service} (h : Reachable kind s.ledger)
    (r : Run) : Reachable kind (s.afterRun r).ledger := by
  unfold Service.afterRun
  split
  case h_1 hok => exact h.request (.run r) hok
  case h_2 => exact h

/-- A ledger of that kind that holds the log, which is coherent. -/
structure Ledger.Records (kind : Kind) (l : Ledger) (log : List Measurement) : Prop where
  holds : Holds kind l log
  coherent : Coherent kind log

namespace Ledger.Records

variable {kind : Kind} {l l' : Ledger} {log : List Measurement} {m : Measurement}

theorem empty (kind : Kind) : Records kind kind.empty [] :=
  ⟨.empty kind, .nil kind⟩

theorem appendRecord_ok (h : Records kind l log) {receipt : Receipt}
    (hok : l.appendRecord m = .ok (l', receipt)) : Records kind l' (log ++ [m]) := by
  obtain ⟨hholds, hreceive⟩ := h.holds.appendRecord_ok hok
  have hadmits := (Kind.receive_eq_ok hreceive).1
  exact ⟨hholds, h.coherent.append_admitted h.holds.valid hadmits⟩

-- A series with a record of a written unit is all in that unit.
theorem unit_eq_of_mem (h : Records kind l log) (hm : m ∈ log) (hunit : m.unit.Written)
    {series : Series} (hseries : l.series m.key = .ok series) :
    ∀ a ∈ series.records, a.unit = m.unit := by
  intro a ha
  obtain ⟨b, hb, hkey, rfl⟩ := (h.holds.mem_series_iff hseries).1 ha
  rw [h.coherent.units b hb m hm hkey, kind.unit_keep hunit]

end Ledger.Records

namespace Service

variable {kind : Ledger.Kind} {s s' : Service} {log : List Measurement}

theorem records_ingestMeasurement (h : Ledger.Records kind s.ledger log) (tool : String)
    (commit : Commit) (m : Measurement) :
    ∃ added ⊆ [m],
      Ledger.Records kind (s.ingestMeasurement tool commit m).2.ledger (log ++ added) := by
  have hunchanged : ∃ added ⊆ [m], Ledger.Records kind s.ledger (log ++ added) :=
    ⟨[], List.nil_subset _, by rwa [List.append_nil]⟩
  unfold ingestMeasurement
  split
  · exact hunchanged
  · exact hunchanged
  split
  · exact hunchanged
  case h_2 ledger receipt hrecord =>
    obtain ⟨-, hledger⟩ := judge_spec { s with ledger } ⟨tool, m.name⟩ commit receipt.outOfOrder
    refine ⟨[m], List.Subset.refl _, ?_⟩
    rw [hledger]
    exact h.appendRecord_ok hrecord

theorem records_ingestEach (h : Ledger.Records kind s.ledger log) (tool : String)
    (commit : Commit) (ms : List Measurement) :
    ∃ added ⊆ ms, Ledger.Records kind (s.ingestEach tool commit ms).2.ledger (log ++ added) := by
  induction ms generalizing s log with
  | nil => exact ⟨[], List.nil_subset _, by rwa [List.append_nil]⟩
  | cons m ms ih =>
    obtain ⟨added, hadded, hone⟩ := records_ingestMeasurement h tool commit m
    obtain ⟨rest, hrest, hall⟩ := ih hone
    refine ⟨added ++ rest, ?_, by rwa [← List.append_assoc]⟩
    refine List.append_subset.2 ⟨fun a ha => ?_, fun a ha => List.mem_cons_of_mem m (hrest ha)⟩
    rw [List.mem_singleton.1 (hadded ha)]
    exact List.mem_cons_self

theorem records_ingestEntries (h : Ledger.Records kind s.ledger log) (tool : String)
    (commit : Commit) (entries : List (Except Rejection Measurement)) :
    ∃ added ⊆ Slot.pendingOf [] entries,
      Ledger.Records kind (s.ingestEntries tool commit entries).2.ledger (log ++ added) :=
  records_ingestEach h tool commit _

end Service

theorem Slot.mem_of_mem_pendingOf {seen : List String}
    {entries : List (Except Rejection Measurement)} {m : Measurement}
    (h : m ∈ pendingOf seen entries) : .ok m ∈ entries := by
  induction entries generalizing seen with
  | nil => exact absurd h List.not_mem_nil
  | cons entry entries ih =>
    rw [pendingOf_cons, List.mem_append] at h
    rcases h with h | h
    · cases entry with
      | error e => exact absurd h List.not_mem_nil
      | ok m' =>
        rw [ofEntry] at h
        split at h
        · exact absurd h List.not_mem_nil
        · rw [List.mem_singleton.1 h]
          exact List.mem_cons_self
    · exact List.mem_cons_of_mem entry (ih h)

/-- `m` is the measurement that an entry of some run reports. -/
def Measurement.OfRun (m : Measurement) : Prop :=
  ∃ (r : Run) (b : Bench), r.Reports b m

theorem Run.ofRun_of_mem_entries {r : Run} {m : Measurement} (h : .ok m ∈ r.entries) :
    m.OfRun := by
  obtain ⟨b, -, hb⟩ := List.mem_map.1 h
  exact ⟨r, b, Run.reports_of_measurement (Fallible.mapError_eq_ok.1 hb)⟩

namespace Service

variable {kind : Ledger.Kind} {s s' : Service} {log : List Measurement}

theorem records_ingestRun (h : Ledger.Records kind s.ledger log) {r : Run} {report : Report}
    (hok : s.ingestRun r = .ok (report, s')) :
    ∃ added, (∀ m ∈ added, .ok m ∈ r.entries) ∧ Ledger.Records kind s'.ledger (log ++ added) := by
  obtain ⟨added, hadded, hrecords⟩ := records_ingestEntries h r.tool r.commit r.entries
  refine ⟨added, fun m hm => Slot.mem_of_mem_pendingOf (hadded hm), ?_⟩
  rwa [(ingestRun_eq_ok.1 hok).2] at hrecords

theorem records_importRuns (h : Ledger.Records kind s.ledger log) (runs : List (String × Run)) :
    ∃ added, (∀ m ∈ added, m.OfRun) ∧
      Ledger.Records kind (s.importRuns runs).2.ledger (log ++ added) := by
  induction runs generalizing s log with
  | nil => exact ⟨[], by simp, by rwa [List.append_nil]⟩
  | cons run runs ih =>
    rw [importRuns]
    split
    case h_1 hok =>
      obtain ⟨added, hadded, hone⟩ := records_ingestRun h hok
      obtain ⟨rest, hrest, hall⟩ := ih hone
      have hruns : ∀ m ∈ added, m.OfRun := fun m hm => Run.ofRun_of_mem_entries (hadded m hm)
      refine ⟨added ++ rest, List.forall_mem_append.2 ⟨hruns, hrest⟩, ?_⟩
      rwa [← List.append_assoc]
    case h_2 => exact ih h

end Service

namespace Ledger

variable {kind : Kind} {l : Ledger}

/-- A reachable ledger holds a coherent log. -/
theorem Reachable.exists_log (h : Reachable kind l) : ∃ log, Records kind l log := by
  induction h with
  | empty => exact ⟨[], .empty kind⟩
  | call _ c ih =>
    obtain ⟨log, hlog⟩ := ih
    exact ⟨_, hlog.holds.after c, hlog.holds.coherent_after hlog.coherent c⟩
  | @request s s' report _ r hok ih =>
    obtain ⟨log, hlog⟩ := ih
    obtain ⟨added, -, hrecords⟩ :=
      Service.records_ingestEntries hlog r.tool r.commit r.entries
    rw [Service.ingestEntries_of_handle hok] at hrecords
    exact ⟨_, hrecords⟩
  | dashboard _ d ih =>
    obtain ⟨log, hlog⟩ := ih
    obtain ⟨added, -, hrecords⟩ := Service.records_importRuns hlog d.runs
    exact ⟨_, hrecords⟩

/-- A ledger of runs holds a coherent log of what runs report. -/
theorem OfRuns.exists_log (h : OfRuns kind l) :
    ∃ log, Records kind l log ∧ ∀ m ∈ log, m.OfRun := by
  induction h with
  | empty => exact ⟨[], .empty kind, by simp⟩
  | run _ r hok ih =>
    obtain ⟨log, hlog, hruns⟩ := ih
    obtain ⟨added, hadded, hrecords⟩ := Service.records_ingestRun hlog hok
    refine ⟨_, hrecords, List.forall_mem_append.2 ⟨hruns, fun m hm => ?_⟩⟩
    exact Run.ofRun_of_mem_entries (hadded m hm)
  | dashboard _ d ih =>
    obtain ⟨log, hlog, hruns⟩ := ih
    obtain ⟨added, hadded, hrecords⟩ := Service.records_importRuns hlog d.runs
    exact ⟨_, hrecords, List.forall_mem_append.2 ⟨hruns, hadded⟩⟩

end Ledger

end BenchLedger
