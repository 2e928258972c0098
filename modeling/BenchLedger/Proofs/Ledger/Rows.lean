import BenchLedger.Ledger.Durable
import BenchLedger.Proofs.Commits
import BenchLedger.Proofs.Decimal.Binary64
import BenchLedger.Proofs.Ledger.Validity
import BenchLedger.Proofs.Text.Units
import BenchLedger.Proofs.Time.Milliseconds

/-!
# What a row keeps of a measurement

A row of the table gives back the measurement it was made of, with the time of recording cut to
milliseconds, the commit and the unit read from their texts and numbers that compare as equal.  It
cannot give back a commit whose text is not read as a commit, nor a time of recording past the end
of the calendar.
-/

namespace BenchLedger

namespace Row

theorem beq_number {x : Float} (h : x.isFinite = true) : (x == number x) = true := by
  unfold number
  split
  case isTrue hzero => exact hzero
  case isFalse => exact Decimal.beq_self_of_isFinite h

theorem isFinite_number {x : Float} (h : x.isFinite = true) : (number x).isFinite = true := by
  unfold number
  split
  · decide
  · exact h

theorem not_number_lt_zero {x : Float} (h : ¬x < 0) : ¬number x < 0 := by
  unfold number
  split
  · decide
  · exact h

end Row

namespace Measurement

/-- `m'` is `m` as a row of the table holds it. -/
structure StoredAs (m m' : Measurement) : Prop where
  tool : m'.tool = m.tool
  commit : m'.commit = m.commit
  name : m'.name = m.name
  value : (m.value == m'.value) = true
  range : (m.range == m'.range) = true
  unit : MeasureUnit.read? m.unit.text = some m'.unit
  recordedAt : Instant.ofMillis? m.recordedAt.millis = some m'.recordedAt

/-- The measurement as a row gives it back. -/
def stored (m : Measurement) : Measurement :=
  { m with
    commit := m.commit.kept
    value := Row.number m.value
    range := Row.number m.range
    unit := (MeasureUnit.read? m.unit.text).getD m.unit
    recordedAt := m.recordedAt.truncated }

/-- What of the measurement its row does not give back; the commit is read first. -/
def loss? (m : Measurement) : Option String :=
  if m.commit.reread? = none then some "commit metadata"
  else if m.recordedAt.PastCalendar then
    some ("recorded_at " ++ Decimal.intText m.recordedAt.millis)
  else none

theorem loss?_eq_none {m : Measurement} :
    m.loss? = none ↔ m.commit.reread? ≠ none ∧ ¬m.recordedAt.PastCalendar := by
  unfold loss?
  split
  case isTrue h => simp [h]
  case isFalse h => simp [h]

theorem stored_unit {m : Measurement} {unit : MeasureUnit}
    (h : MeasureUnit.read? m.unit.text = some unit) : m.stored.unit = unit := by
  simp [stored, h]

theorem Valid.exists_unit {m : Measurement} (h : m.Valid) :
    ∃ unit, MeasureUnit.read? m.unit.text = some unit := by
  rw [← Option.ne_none_iff_exists', Ne, MeasureUnit.read?_eq_none_iff, h.unit]
  decide

theorem Valid.stored {m : Measurement} (h : m.Valid) : m.stored.Valid := by
  obtain ⟨unit, hunit⟩ := h.exists_unit
  have hblank : Text.isAllBlank m.stored.unit.text = false := by
    rw [stored_unit hunit]
    exact MeasureUnit.isAllBlank_text hunit
  have hid : m.stored.commit.id = m.commit.id := m.commit.id_kept
  exact ⟨Row.isFinite_number h.value_finite, Row.isFinite_number h.range_finite,
    Row.not_number_lt_zero h.value_nonneg, Row.not_number_lt_zero h.range_nonneg, h.tool, h.name,
    hblank, hid ▸ h.commitId⟩

theorem Valid.storedAs {m : Measurement} (h : m.Valid) (hcommit : m.commit.Written)
    (hpast : ¬m.recordedAt.PastCalendar) : m.StoredAs m.stored where
  tool := rfl
  commit := hcommit.kept
  name := rfl
  value := Row.beq_number h.value_finite
  range := Row.beq_number h.range_finite
  unit := by
    obtain ⟨unit, hunit⟩ := h.exists_unit
    rw [stored_unit hunit, hunit]
  recordedAt := by
    rw [← Instant.ofMillis?_millis_eq_none_iff, ← Ne, Option.ne_none_iff_exists'] at hpast
    obtain ⟨t, ht⟩ := hpast
    simp [Measurement.stored, Instant.truncated, ht]

end Measurement

namespace Row

variable {m : Measurement}

theorem decodeCommit_of_some (h : m.commit.reread? ≠ none) :
    (ofMeasurement m).decodeCommit = .ok m.stored.commit := by
  unfold decodeCommit ofMeasurement
  rw [m.commit.readAs_render, Commit.ofJson_toJson_of_some (Commit.reread?_eq_kept h)]
  rfl

theorem decodeCommit_of_none (h : m.commit.reread? = none) :
    (ofMeasurement m).decodeCommit = .error (.corrupt "commit metadata") := by
  unfold decodeCommit ofMeasurement
  rw [m.commit.readAs_render, Commit.ofJson_toJson_of_none h]
  rfl

theorem decodeUnit_ofMeasurement (h : m.Valid) :
    (ofMeasurement m).decodeUnit = .ok m.stored.unit := by
  obtain ⟨unit, hunit⟩ := h.exists_unit
  simp [decodeUnit, ofMeasurement, Measurement.stored_unit hunit, hunit]

theorem decodeRecordedAt_ofMeasurement (m : Measurement) :
    (ofMeasurement m).decodeRecordedAt =
      if m.recordedAt.PastCalendar then
        .error (.corrupt ("recorded_at " ++ Decimal.intText m.recordedAt.millis))
      else .ok m.stored.recordedAt := by
  unfold decodeRecordedAt ofMeasurement Measurement.stored Instant.truncated
  dsimp only
  cases h : Instant.ofMillis? m.recordedAt.millis with
  | none => rw [if_pos (Instant.ofMillis?_millis_eq_none_iff.1 h)]
  | some t =>
    rw [if_neg]
    · rfl
    · rw [← Instant.ofMillis?_millis_eq_none_iff, h]
      exact nofun

/-- The row of a valid measurement gives it back unless some of it is lost. -/
theorem measurement_of_kept (h : m.Valid) (hkept : m.loss? = none) :
    (ofMeasurement m).measurement = .ok m.stored := by
  obtain ⟨hcommit, hpast⟩ := Measurement.loss?_eq_none.1 hkept
  unfold measurement
  rw [decodeCommit_of_some hcommit, Fallible.ok_bind, decodeUnit_ofMeasurement h,
    Fallible.ok_bind, decodeRecordedAt_ofMeasurement, if_neg hpast]
  rfl

theorem measurement_of_lost (h : m.Valid) {what : String} (hlost : m.loss? = some what) :
    (ofMeasurement m).measurement = .error (.corrupt what) := by
  unfold measurement
  by_cases hcommit : m.commit.reread? = none
  · obtain rfl := Option.some.inj ((if_pos hcommit).symm.trans hlost)
    rw [decodeCommit_of_none hcommit]
    rfl
  · have hpast : m.recordedAt.PastCalendar := by
      by_contra hpast
      rw [Measurement.loss?_eq_none.2 ⟨hcommit, hpast⟩] at hlost
      exact nomatch hlost
    unfold Measurement.loss? at hlost
    rw [if_neg hcommit, if_pos hpast] at hlost
    obtain rfl := Option.some.inj hlost
    rw [decodeCommit_of_some hcommit, Fallible.ok_bind, decodeUnit_ofMeasurement h,
      Fallible.ok_bind, decodeRecordedAt_ofMeasurement, if_pos hpast]
    rfl

-- Rows tell what is lost.
theorem loss?_congr {a b : Measurement} (ha : a.Valid) (hb : b.Valid)
    (h : ofMeasurement a = ofMeasurement b) : a.loss? = b.loss? := by
  cases haloss : a.loss? with
  | none =>
    have haread := measurement_of_kept ha haloss
    cases hbloss : b.loss? with
    | none => rfl
    | some what =>
      rw [h, measurement_of_lost hb hbloss] at haread
      exact nomatch haread
  | some what =>
    have haread := measurement_of_lost ha haloss
    cases hbloss : b.loss? with
    | none =>
      rw [h, measurement_of_kept hb hbloss] at haread
      exact nomatch haread
    | some what' =>
      rw [h, measurement_of_lost hb hbloss, Except.error.injEq, LedgerError.corrupt.injEq] at haread
      rw [haread]

end Row

end BenchLedger
