import BenchLedger.Proofs.Dashboard.Restating
import BenchLedger.Proofs.Decimal.Products
import BenchLedger.Proofs.Text.RangeGrammar

/-!
# Runs that are rebuilt from records

A run that is rebuilt from records of one tool and commit, all of one date, has a valid header, and
its entries read as the records, but for those whose range is the negative zero.  That number is not
below zero and so a valid range, yet its text has a sign, which no range can be read with.
-/

namespace BenchLedger

theorem RangeText.write_negativeZero : write (-0) = "± -0" := by
  decide +kernel

theorem RangeText.read?_negativeZero : read? "± -0" = none := by
  decide +kernel

/-- Of the valid ranges only the negative zero has a sign. -/
theorem Measurement.Valid.isNegative_range_iff {m : Measurement} (h : m.Valid) :
    Decimal.isNegative m.range = true ↔ m.range = -0 :=
  Decimal.isNegative_iff_of_not_lt_zero (Decimal.isNaN_of_isFinite h.range_finite) h.range_nonneg

namespace Run

variable {r : Run} {b : Bench} {m : Measurement} {t : Instant}

/-- What the entry that shows a valid record reads as, in a run of its commit and its date. -/
theorem entry_ofMeasurement (hvalid : m.Valid) (htool : m.tool = r.tool)
    (hcommit : m.commit = r.commit) (hrecordedAt : r.recordedAt = .ok m.recordedAt)
    (hunit : m.unit.Written) :
    (r.measurement (.ofMeasurement m)).mapError (Rejection.mk m.name) =
      if m.range = -0 then .error ⟨m.name, .malformedRange "± -0"⟩ else .ok m := by
  by_cases hzero : m.range = -0
  · have htext : (Bench.ofMeasurement m).range = "± -0" := by
      rw [Bench.ofMeasurement, hzero, RangeText.write_negativeZero]
    have hread : RangeText.read? (Bench.ofMeasurement m).range = none := by
      rw [htext, RangeText.read?_negativeZero]
    rw [if_pos hzero, measurement_of_malformed hrecordedAt hread, htext]
    rfl
  · have hsign : Decimal.isNegative m.range = false :=
      Bool.eq_false_iff.2 (hvalid.isNegative_range_iff.not.2 hzero)
    have hdescribes : r.Describes (.ofMeasurement m) m :=
      describes_ofMeasurement htool hcommit hrecordedAt hunit hvalid.range_finite hsign
    rw [if_neg hzero, ← Measurement.entry_of_valid hvalid]
    exact hdescribes.entry_eq

section Rebuilt

variable {tool : String} {commit : Commit} {records : List Measurement}

theorem recordedAt_ofRecords (hne : records ≠ []) (ht : t.OnMillisecond)
    (hrecordedAt : ∀ m ∈ records, m.recordedAt = t) :
    (ofRecords tool commit records).recordedAt = .ok t := by
  rw [recordedAt_eq_ok, date_ofRecords hne fun m hm => congrArg Instant.millis (hrecordedAt m hm)]
  exact Instant.ofMillis?_millis ht

/-- The header of a rebuilt run is valid, and its entries are the records, each accepted unless its
range is the negative zero. -/
theorem entries_ofRecords (hne : records ≠ []) (hvalid : ∀ m ∈ records, m.validate = .ok ())
    (hgroup : ∀ m ∈ records, m.tool = tool ∧ m.commit = commit)
    (ht : t.OnMillisecond) (hrecordedAt : ∀ m ∈ records, m.recordedAt = t)
    (hunit : ∀ m ∈ records, m.unit.Written) :
    (ofRecords tool commit records).validateHeader = .ok () ∧
      (ofRecords tool commit records).entries = records.map (fun m =>
        if m.range = -0 then .error ⟨m.name, .malformedRange "± -0"⟩ else .ok m) ∧
      ((ofRecords tool commit records).entries = records.map .ok ↔
        ∀ m ∈ records, m.range ≠ -0) := by
  have hdate : (ofRecords tool commit records).recordedAt = .ok t :=
    recordedAt_ofRecords hne ht hrecordedAt
  have hentries : (ofRecords tool commit records).entries = records.map fun m =>
      if m.range = -0 then .error ⟨m.name, .malformedRange "± -0"⟩ else .ok m := by
    show (records.map Bench.ofMeasurement).map _ = _
    rw [List.map_map]
    refine List.map_congr_left fun m hm => ?_
    obtain ⟨htool, hcommit⟩ := hgroup m hm
    refine entry_ofMeasurement (Measurement.validate_eq_ok.1 (hvalid m hm)) htool hcommit ?_
      (hunit m hm)
    rw [hdate, hrecordedAt m hm]
  refine ⟨?_, hentries, ?_⟩
  · obtain ⟨m, hm⟩ := List.exists_mem_of_ne_nil records hne
    obtain ⟨rfl, rfl⟩ := hgroup m hm
    have h := Measurement.validate_eq_ok.1 (hvalid m hm)
    exact validateHeader_eq_ok_iff.2 ⟨h.tool, Commit.validate_eq_ok.2 h.commitId, t, hdate⟩
  · rw [hentries, List.map_inj_left]
    refine forall₂_congr fun m hm => ?_
    by_cases hzero : m.range = -0
    · simp [hzero]
    · simp [hzero]

end Rebuilt

/-- A record of a benchmark at the first commit, with that range. -/
def ranging (name : String) (range : Float) : Measurement :=
  { Ledger.recordAt "c1" with name, range }

-- Of two valid records the one whose range is the negative zero is lost.
theorem entries_ofRecords_negativeZero :
    let records := [ranging "x" (-0), ranging "y" 0.5]
    (∀ m ∈ records, m.validate = .ok ()) ∧
      (ofRecords "cargo" (Ledger.recordAt "c1").commit records).validateHeader = .ok () ∧
      (ofRecords "cargo" (Ledger.recordAt "c1").commit records).entries =
        [.error ⟨"x", .malformedRange "± -0"⟩, .ok (ranging "y" 0.5)] := by
  intro records
  have hvalid : ∀ m ∈ records, m.validate = .ok () := by decide +kernel
  have hgroup : ∀ m ∈ records, m.tool = "cargo" ∧ m.commit = (Ledger.recordAt "c1").commit := by
    decide +kernel
  have hepoch : ∀ m ∈ records, m.recordedAt = .epoch := by decide +kernel
  have hunit : ∀ m ∈ records, m.unit.Written := by
    have hsame : ∀ m ∈ records, MeasureUnit.read? "ns/iter" = some m.unit := by decide +kernel
    exact fun m hm => ⟨"ns/iter", hsame m hm⟩
  obtain ⟨hheader, hentries, -⟩ :=
    entries_ofRecords (List.cons_ne_nil _ _) hvalid hgroup (by decide) hepoch hunit
  refine ⟨hvalid, hheader, hentries.trans ?_⟩
  decide +kernel

end Run

end BenchLedger
