import BenchLedger.Ingest.Service
import BenchLedger.Proofs.Ledger.Representation

/-!
# What ingestion writes

The report on a run names each of its entries in order, and the entries that it counts as stored
are those whose measurements were added to the log of the ledger, in the same order.
-/

namespace BenchLedger

/-- `m` is the measurement that an entry of the run reports. -/
structure Run.Reports (r : Run) (b : Bench) (m : Measurement) : Prop where
  valid : m.Valid
  tool : m.tool = r.tool
  commit : m.commit = r.commit
  name : m.name = b.name
  value : m.value = b.value
  range : RangeText.read? b.range = some m.range
  unit : MeasureUnit.read? b.unit = some m.unit
  recordedAt : m.recordedAt.OnMillisecond

theorem Run.reports_of_measurement {r : Run} {b : Bench} {m : Measurement}
    (h : r.measurement b = .ok m) : r.Reports b m := by
  obtain ⟨recordedAt, hdate, h⟩ := Fallible.bind_eq_ok.1 h
  have hwhole : recordedAt.OnMillisecond := by
    unfold Run.recordedAt at hdate
    split at hdate
    case h_1 t ht =>
      obtain rfl := Except.ok.inj hdate
      exact Instant.onMillisecond_of_ofMillis? ht
    case h_2 => exact absurd hdate Fallible.error_ne_ok
  split at h
  case h_2 => exact absurd h Fallible.error_ne_ok
  case h_1 range hrange =>
    split at h
    case h_2 => exact absurd h Fallible.error_ne_ok
    case h_1 unit hunit =>
      obtain ⟨_, hvalid, h⟩ := Fallible.bind_eq_ok.1 h
      obtain rfl := Except.ok.inj h
      exact ⟨Measurement.validate_eq_ok.1 hvalid, rfl, rfl, rfl, rfl, hrange, hunit, hwhole⟩

/-- The measurement is in the ledger now and was not before. -/
def Status.isStored : Status → Bool
  | evaluated _ _ => true
  | analysisFailed _ => true
  | _ => false

namespace Outcome

/-- The items whose outcomes tell that they were stored. -/
def storedOf {α : Type} (items : List α) (outcomes : List Outcome) : List α :=
  ((items.zip outcomes).filter (·.2.status.isStored)).map (·.1)

theorem storedOf_cons {α : Type} (a : α) (items : List α) (o : Outcome) (outcomes : List Outcome) :
    storedOf (a :: items) (o :: outcomes) =
      (if o.status.isStored then [a] else []) ++ storedOf items outcomes := by
  unfold storedOf
  cases h : o.status.isStored <;> simp [h]

end Outcome

namespace Service

theorem isStored_refusal (e : LedgerError) : (refusal e).isStored = false := by
  cases e <;> rfl

-- Judging a stored measurement leaves the ledger as it is.
theorem judge_spec (s : Service) (key : SeriesKey) (commit : Commit) (outOfOrder : Bool) :
    (s.judge key commit outOfOrder).1.isStored = true ∧
      (s.judge key commit outOfOrder).2.ledger = s.ledger := by
  unfold judge
  split
  · exact ⟨rfl, rfl⟩
  split
  · exact ⟨rfl, rfl⟩
  refine ⟨rfl, ?_⟩
  split <;> rfl

variable {kind : Ledger.Kind} {s s' : Service} {log : List Measurement}

theorem ingestRun_eq_ok {r : Run} {report : Report} :
    s.ingestRun r = .ok (report, s') ↔
      r.validateHeader = .ok () ∧ s.ingestEntries r.tool r.commit r.entries = (report, s') := by
  unfold ingestRun
  cases hheader : r.validateHeader with
  | error e => simp
  | ok _ => simp

theorem holds_ingestMeasurement (h : Ledger.Holds kind s.ledger log) (tool : String)
    (commit : Commit) (m : Measurement) :
    Ledger.Holds kind (s.ingestMeasurement tool commit m).2.ledger
      (log ++ if (s.ingestMeasurement tool commit m).1.isStored then [m] else []) := by
  unfold ingestMeasurement
  split
  · simpa [Status.isStored] using h
  · simpa [Status.isStored] using h
  split
  case h_1 e _ => simpa [isStored_refusal] using h
  case h_2 ledger receipt hrecord =>
    obtain ⟨hstored, hledger⟩ :=
      judge_spec { s with ledger } ⟨tool, m.name⟩ commit receipt.outOfOrder
    rw [hstored, hledger, if_pos rfl]
    exact (h.appendRecord_ok hrecord).1

theorem holds_ingestEach (h : Ledger.Holds kind s.ledger log) (tool : String) (commit : Commit)
    (ms : List Measurement) :
    (s.ingestEach tool commit ms).1.map (·.benchmark) = ms.map (·.name) ∧
    Ledger.Holds kind (s.ingestEach tool commit ms).2.ledger
      (log ++ Outcome.storedOf ms (s.ingestEach tool commit ms).1) := by
  induction ms generalizing s log with
  | nil => exact ⟨rfl, by simpa [ingestEach, Outcome.storedOf] using h⟩
  | cons m ms ih =>
    have hone := holds_ingestMeasurement h tool commit m
    obtain ⟨hnames, hrest⟩ := ih hone
    rw [ingestEach]
    generalize s.ingestMeasurement tool commit m = one at hone hnames hrest ⊢
    refine ⟨congrArg (m.name :: ·) hnames, ?_⟩
    rw [Outcome.storedOf_cons, ← List.append_assoc]
    exact hrest

end Service

namespace Slot

/-- A slot that an entry of a run was given. -/
def Fits (r : Run) (b : Bench) : Slot → Prop
  | settled o => o.benchmark = b.name ∧ o.status.isStored = false
  | pending m => r.Reports b m

theorem forall₂_ofEntries (r : Run) (seen : List String) :
    List.Forall₂ (Fits r) r.benches (ofEntries seen r.entries) := by
  unfold Run.entries
  induction r.benches generalizing seen with
  | nil => exact .nil
  | cons b bs ih =>
    rw [List.map_cons]
    cases hb : r.measurement b with
    | error e => exact .cons ⟨rfl, rfl⟩ (ih seen)
    | ok m =>
      have hm := Run.reports_of_measurement hb
      show List.Forall₂ (Fits r) (b :: bs) (ofEntries seen (.ok m :: _))
      rw [ofEntries]
      -- a name that was seen before in the run is settled as rejected
      split
      · exact .cons ⟨hm.name, rfl⟩ (ih seen)
      · exact .cons hm (ih _)

-- Filling in the outcomes of the pending measurements names every entry once and in order, and
-- marks as stored just the entries whose measurements were.
theorem fill_spec {r : Run} {bs : List Bench} {slots : List Slot} {outcomes : List Outcome}
    (h : List.Forall₂ (Fits r) bs slots)
    (hnames : outcomes.map (·.benchmark) = (slots.filterMap pending?).map (·.name)) :
    (fill slots outcomes).map (·.benchmark) = bs.map (·.name) ∧
    List.Forall₂ r.Reports (Outcome.storedOf bs (fill slots outcomes))
      (Outcome.storedOf (slots.filterMap pending?) outcomes) := by
  induction h generalizing outcomes with
  | nil => exact ⟨rfl, .nil⟩
  | @cons b slot bs slots hslot _ ih =>
    cases slot with
    | settled o =>
      -- the outcome stands already and tells that nothing was stored
      obtain ⟨hfill, hstored⟩ := ih hnames
      obtain ⟨hname, hnot⟩ := hslot
      rw [fill, Outcome.storedOf_cons, hnot, List.map_cons, List.map_cons, hfill, hname]
      exact ⟨rfl, hstored⟩
    | pending m =>
      cases outcomes with
      | nil => exact absurd hnames.symm (by simp [pending?])
      | cons o outcomes =>
        -- the next outcome is that of this measurement, since it has its name
        obtain ⟨ho, houtcomes⟩ := List.cons.inj hnames
        obtain ⟨hfill, hstored⟩ := ih houtcomes
        have hname : o.benchmark = b.name := ho.trans hslot.name
        rw [fill, Outcome.storedOf_cons, List.map_cons, List.map_cons, hfill, hname]
        refine ⟨rfl, ?_⟩
        show List.Forall₂ _ _ (Outcome.storedOf (m :: slots.filterMap pending?) (o :: outcomes))
        rw [Outcome.storedOf_cons]
        cases o.status.isStored with
        | true => exact .cons hslot hstored
        | false => exact hstored

end Slot

end BenchLedger
