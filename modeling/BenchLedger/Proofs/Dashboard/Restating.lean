import BenchLedger.Proofs.Dashboard.Export
import BenchLedger.Proofs.Ingest.Acceptance
import BenchLedger.Proofs.Ledger.Agreement
import BenchLedger.Proofs.Text.Ranges

/-!
# Exported runs are runs again

A run of a document reports the measurements that it was formed of once more, all under its own
commit and date.  Grouped again they form the same run, with the values as the ledger keeps them
that they were reported to, if that ledger keeps the commit as it came.
-/

namespace BenchLedger

/-- What the measurements of runs are like: valid, in a unit that some text writes, recorded on a
whole millisecond, and with no sign before the range. -/
structure Measurement.Plain (m : Measurement) : Prop extends m.Reported where
  valid : m.Valid
  range : Decimal.isNegative m.range = false

theorem Measurement.OfRun.plain {m : Measurement} (h : m.OfRun) : m.Plain := by
  obtain ⟨r, b, hreports⟩ := h
  exact ⟨⟨⟨b.unit, hreports.unit⟩, hreports.recordedAt⟩, hreports.valid,
    RangeText.isNegative_of_read? hreports.range⟩

/-- A number as a ledger of that kind keeps it. -/
def Ledger.Kind.number : Kind → Float → Float
  | resident, x => x
  | durable, x => Row.number x

namespace Measurement

variable {m : Measurement}

theorem group_keep (kind : Ledger.Kind) (m : Measurement) : (kind.keep m).group = m.group := by
  have htool : (kind.keep m).tool = m.tool := congrArg SeriesKey.tool (kind.key_keep m)
  exact Prod.ext htool (kind.commitId_keep m)

theorem name_keep (kind : Ledger.Kind) (m : Measurement) : (kind.keep m).name = m.name := by
  cases kind <;> rfl

namespace Plain

/-- A ledger changes nothing of such a measurement but its commit and the sign of a value that is
zero. -/
theorem keep_eq (h : m.Plain) (kind : Ledger.Kind) :
    kind.keep m = { m with commit := (kind.keep m).commit, value := kind.number m.value } := by
  cases kind with
  | resident => rfl
  | durable =>
    have hrange : Row.number m.range = m.range := by
      unfold Row.number
      split
      case isTrue hzero => exact (Decimal.eq_zero_of_beq_zero h.range hzero).symm
      case isFalse => rfl
    have hunit : (MeasureUnit.read? m.unit.text).getD m.unit = m.unit := by
      rw [MeasureUnit.written_iff.1 h.unit, Option.getD_some]
    have hrecordedAt : m.recordedAt.truncated = m.recordedAt := h.recordedAt_stored
    show m.stored = _
    rw [stored, hrange, hunit, hrecordedAt]
    rfl

theorem keep (h : m.Plain) (kind : Ledger.Kind) : (kind.keep m).Plain := by
  have hvalid : (kind.keep m).Valid := Ledger.Kind.valid_keep h.valid
  rw [h.keep_eq] at hvalid ⊢
  exact ⟨⟨h.unit, h.recordedAt⟩, hvalid, h.range⟩

theorem unit_keep (h : m.Plain) (kind : Ledger.Kind) : (kind.keep m).unit = m.unit :=
  kind.unit_keep h.unit

theorem identity_keep (h : m.Plain) (kind : Ledger.Kind) :
    (kind.keep m).identity = m.identity := by
  show ((kind.keep m).key, (kind.keep m).commit.id, (kind.keep m).unit) =
    (m.key, m.commit.id, m.unit)
  rw [kind.key_keep, kind.commitId_keep, h.unit_keep]

end Plain

end Measurement

/-- The measurement as the run reports it: with the commit and the date of the run. -/
def Run.restate (r : Run) (m : Measurement) : Measurement :=
  { m with
    commit := r.commit
    recordedAt := (Instant.ofMillis? r.date).getD m.recordedAt }

/-- The measurements that the run reports, if it was formed of these. -/
def Run.restateAll (r : Run) (ms : List Measurement) : List Measurement :=
  (ms.filter (·.group = r.group)).map r.restate

/-- The entry, with its value as a ledger of that kind keeps it. -/
def Bench.kept (kind : Ledger.Kind) (b : Bench) : Bench :=
  { b with value := kind.number b.value }

def Run.kept (kind : Ledger.Kind) (r : Run) : Run :=
  { r with benches := r.benches.map (Bench.kept kind) }

theorem Run.date_ofRecords {tool : String} {commit : Commit} {records : List Measurement} {date : ℤ}
    (hne : records ≠ []) (h : ∀ m ∈ records, m.recordedAt.millis = date) :
    (ofRecords tool commit records).date = date := by
  have hmax : (records.map (·.recordedAt.millis)).max? = some date := by
    obtain ⟨m, hm⟩ := List.exists_mem_of_ne_nil records hne
    rw [List.max?_eq_some_iff, List.forall_mem_map]
    exact ⟨List.mem_map.2 ⟨m, hm, h m hm⟩, fun m hm => (h m hm).le⟩
  show (records.map (·.recordedAt.millis)).max?.getD _ = date
  rw [hmax, Option.getD_some]

theorem benches_of_group? {ms : List Measurement} {group : String × String} {r : Run}
    (h : group? ms group = some r) :
    r.benches = (ms.filter (·.group = group)).map .ofMeasurement := by
  rw [group?_eq] at h
  split at h
  · exact nomatch h
  case h_2 m others hfilter =>
    obtain rfl := Option.some.inj h
    rw [hfilter]
    rfl

namespace Run

variable {ms : List Measurement} {r : Run} {m : Measurement}

/-- The entry that shows a measurement describes it in a run of its commit and its date. -/
theorem describes_ofMeasurement (htool : m.tool = r.tool) (hcommit : m.commit = r.commit)
    (hrecordedAt : r.recordedAt = .ok m.recordedAt) (hunit : m.unit.Written)
    (hfinite : m.range.isFinite = true) (hrange : Decimal.isNegative m.range = false) :
    r.Describes (.ofMeasurement m) m where
  tool := htool
  commit := hcommit
  name := rfl
  value := rfl
  range := RangeText.read?_write hfinite hrange
  unit := MeasureUnit.written_iff.1 hunit
  recordedAt := hrecordedAt

section Exported

-- `r` is a run of the document of these measurements.
variable (hplain : ∀ m ∈ ms, m.Plain)
  (hnames : (ms.filter (·.group = r.group)).Pairwise (·.name < ·.name))
  (hr : group? ms r.group = some r)
include hplain hnames hr

/-- The date of the run is that of some measurement. -/
theorem exists_date : ∃ t, Instant.ofMillis? r.date = some t ∧ t.millis = r.date := by
  obtain ⟨latest, hlatest, hdate⟩ := (gathers_of_group? hr hnames).date
  have hwhole := (hplain latest (List.mem_filter.1 hlatest).1).recordedAt
  refine ⟨latest.recordedAt, ?_, hdate⟩
  rw [← hdate, Instant.ofMillis?_millis hwhole]

theorem validateHeader_of_group? : r.validateHeader = .ok () := by
  obtain ⟨t, ht, -⟩ := exists_date hplain hnames hr
  obtain ⟨first, hfirst, hcommit⟩ := (gathers_of_group? hr hnames).commit
  obtain ⟨hmem, hgroup⟩ := List.mem_filter.1 hfirst
  have hvalid := (hplain first hmem).valid
  have htool : Text.isAllBlank r.tool = false := by
    rw [← (Prod.mk.inj (of_decide_eq_true hgroup)).1]
    exact hvalid.tool
  have hcheck : r.commit.validate = .ok () := by
    rw [← hcommit]
    exact Commit.validate_eq_ok.2 hvalid.commitId
  exact validateHeader_eq_ok_iff.2 ⟨htool, hcheck, t, recordedAt_eq_ok.2 ht⟩

theorem plain_restate (hm : m ∈ ms) (hgroup : m.group = r.group) : (r.restate m).Plain := by
  obtain ⟨t, ht, -⟩ := exists_date hplain hnames hr
  have hrecordedAt : (r.restate m).recordedAt = t := by rw [restate, ht, Option.getD_some]
  have h := hplain m hm
  have hcommitId : Text.isAllBlank r.commit.id = false := by
    rw [← (Prod.mk.inj hgroup).2]
    exact h.valid.commitId
  refine ⟨⟨h.unit, ?_⟩, ?_, h.range⟩
  · rw [hrecordedAt]
    exact Instant.onMillisecond_of_ofMillis? ht
  · exact { h.valid with commitId := hcommitId }

/-- Each entry of the run reads as the measurement that it shows. -/
theorem measurement_ofMeasurement (hm : m ∈ ms) (hgroup : m.group = r.group) :
    r.measurement (.ofMeasurement m) = .ok (r.restate m) := by
  obtain ⟨t, ht, -⟩ := exists_date hplain hnames hr
  have h := plain_restate hplain hnames hr hm hgroup
  have hrecordedAt : r.recordedAt = .ok (r.restate m).recordedAt := by
    rw [restate, ht, Option.getD_some]
    exact recordedAt_eq_ok.2 ht
  have hdescribes : r.Describes (.ofMeasurement (r.restate m)) (r.restate m) :=
    describes_ofMeasurement (Prod.mk.inj hgroup).1 rfl hrecordedAt h.unit h.valid.range_finite
      h.range
  show r.measurement (.ofMeasurement (r.restate m)) = _
  rw [hdescribes.measurement_eq, Measurement.validate_eq_ok.2 h.valid, Fallible.ok_bind]

theorem states_of_group? : r.States (r.restateAll ms) where
  header := validateHeader_of_group? hplain hnames hr
  entries := by
    rw [entries, benches_of_group? hr, restateAll, List.map_map, List.map_map]
    refine List.map_congr_left fun m hm => ?_
    obtain ⟨hm, hgroup⟩ := List.mem_filter.1 hm
    show Except.mapError _ (r.measurement (.ofMeasurement m)) = _
    rw [measurement_ofMeasurement hplain hnames hr hm (of_decide_eq_true hgroup)]
    rfl
  names := by
    rw [restateAll, List.map_map, List.Nodup, List.pairwise_map]
    exact hnames.imp fun hlt => hlt.ne

end Exported

end Run

end BenchLedger
