import BenchLedger.Proofs.Ingest.Reachable
import BenchLedger.Proofs.Ledger.Units

/-!
# Repeated commits

A commit that the series of a measurement has already is a duplicate, whatever the unit.  So is, for
a durable ledger, a batch of a commit that the tool has.  A ledger in memory looks at the units of a
batch first: it calls the batch a duplicate only if all of its records keep the units of their
series, and else refuses it for the first that does not.
-/

namespace BenchLedger

section Again

variable {tool : String} {commit : Commit} {records : List Measurement}
  (hbatch : Ledger.validateBatch tool commit records = .ok ())
include hbatch

theorem Resident.append_of_seen {r : Resident} (hseen : r.containsCommit tool commit.id = true) :
    r.append tool commit records =
      (records.forM fun m => Ledger.ensureUnit (r.unit? m.key) m) >>= fun _ =>
        .error (.duplicateCommit tool commit.id) := by
  unfold append
  rw [Ledger.checked_eq_ok.2 hbatch, Fallible.ok_bind, if_pos hseen]
  rfl

theorem Durable.append_of_hasCommit {d : Durable} (hconnected : d.connected = .ok ())
    (hcommit : d.hasCommit tool commit.id = true) :
    d.append tool commit records = .error (.duplicateCommit tool commit.id) := by
  unfold append
  rw [Ledger.checked_eq_ok.2 hbatch, hconnected, Fallible.ok_bind, Fallible.ok_bind,
    if_pos hcommit]
  rfl

end Again

namespace Ledger

variable {kind : Kind} {l : Ledger} {log records : List Measurement} {tool : String}
  {commit : Commit}

/-- `m` is the first of the records that is not in the unit of its series, which is `unit`. -/
structure FirstChange (l : Ledger) (records : List Measurement) (m : Measurement)
    (unit : MeasureUnit) : Prop where
  first : ∃ before after, records = before ++ m :: after ∧ ∀ old ∈ before, l.KeepsUnit old
  series : l.unit? m.key = .ok (some unit)
  changed : unit ≠ m.unit

theorem Holds.append_of_recorded (h : Holds kind l log)
    (hbatch : validateBatch tool commit records = .ok ()) (hrecorded : l.Recorded tool commit.id) :
    l.append tool commit records =
      (match kind with
        | .resident => records.forM fun m => ensureUnit (kind.unit? log m.key) m
        | .durable => .ok ()) >>= fun _ => .error (.duplicateCommit tool commit.id) := by
  obtain ⟨old, hold, rfl, hid⟩ := h.recorded_iff.1 hrecorded
  cases h with
  | @resident r _ h =>
    have hseen : r.containsCommit old.tool commit.id = true := hid ▸ h.seen old hold
    show (r.append old.tool commit records).map Ledger.resident = _
    rw [Resident.append_of_seen hbatch hseen]
    simp only [h.unit?]
    cases records.forM fun m => ensureUnit (Kind.resident.unit? log m.key) m <;> rfl
  | @durable d _ h =>
    have hcommit : d.hasCommit old.tool commit.id = true := h.hasCommit_iff.2 ⟨old, hold, rfl, hid⟩
    show (d.append old.tool commit records).map Ledger.durable = _
    rw [Durable.append_of_hasCommit hbatch h.connected hcommit]
    rfl

-- Of the units of a batch either all are kept or there is a first that is not.
theorem Holds.forM_ensureUnit_cases (h : Holds kind l log) (records : List Measurement) :
    ((∀ m ∈ records, l.KeepsUnit m) ∧
      (records.forM fun m => ensureUnit (kind.unit? log m.key) m) = .ok ()) ∨
    ∃ m unit, l.FirstChange records m unit ∧
      (records.forM fun m => ensureUnit (kind.unit? log m.key) m) =
        .error (.unitMismatch m.key unit m.unit) := by
  cases hunits : records.forM fun m => ensureUnit (kind.unit? log m.key) m with
  | ok _ =>
    exact .inl ⟨fun m hm => h.ensureUnit_eq_ok_iff.1 (Fallible.forM_eq_ok.1 hunits m hm), rfl⟩
  | error e =>
    obtain ⟨before, m, after, hsplit, hkept, hrefused⟩ := Fallible.exists_of_forM_eq_error hunits
    obtain ⟨unit, hunit, hne, rfl⟩ := h.exists_of_ensureUnit_eq_error hrefused
    refine .inr ⟨m, unit, ⟨⟨before, after, hsplit, fun old hold => ?_⟩, hunit, hne⟩, rfl⟩
    exact h.ensureUnit_eq_ok_iff.1 (hkept old hold)

namespace FirstChange

variable {m : Measurement} {unit : MeasureUnit}

theorem mem (h : l.FirstChange records m unit) : m ∈ records := by
  obtain ⟨before, after, hsplit, -⟩ := h.first
  simp [hsplit]

theorem not_keepsUnit (h : l.FirstChange records m unit) : ¬∀ m ∈ records, l.KeepsUnit m :=
  fun hall => h.changed (hall m h.mem unit h.series)

end FirstChange

/-- A valid batch of a commit that the tool has a record of is a duplicate for a durable ledger.  A
ledger in memory calls it one if all its records keep their units, and else refuses the first unit
that changes.  A valid record of a commit that its series has is a duplicate for both. -/
theorem append_of_repeatedCommit (h : Reachable kind l) :
    (∀ tool commit records, validateBatch tool commit records = .ok () →
      l.Recorded tool commit.id →
        (l.append tool commit records = .error (.duplicateCommit tool commit.id) ↔
          kind = .durable ∨ ∀ m ∈ records, l.KeepsUnit m) ∧
        (¬(kind = .durable ∨ ∀ m ∈ records, l.KeepsUnit m) →
          ∃ m unit, l.FirstChange records m unit ∧
            l.append tool commit records = .error (.unitMismatch m.key unit m.unit))) ∧
    ∀ m : Measurement, m.Valid → l.hasRecord m.key m.commit.id = true →
      l.appendRecord m = .error (.duplicateCommit m.tool m.commit.id) := by
  obtain ⟨log, ⟨hholds, -⟩⟩ := h.exists_log
  constructor
  · intro tool commit records hbatch hrecorded
    rw [hholds.append_of_recorded hbatch hrecorded]
    cases kind with
    | durable =>
      refine ⟨iff_of_true rfl (.inl rfl), fun hnot => absurd (.inl rfl) hnot⟩
    | resident =>
      obtain ⟨hkept, hunits⟩ | ⟨m, unit, hfirst, hunits⟩ := hholds.forM_ensureUnit_cases records
      · dsimp only
        rw [hunits]
        exact ⟨iff_of_true rfl (.inr hkept), fun hnot => absurd (.inr hkept) hnot⟩
      · dsimp only
        rw [hunits, Fallible.error_bind]
        refine ⟨iff_of_false ?_ ?_, fun _ => ⟨m, unit, hfirst, rfl⟩⟩
        · exact fun heq => nomatch Except.error.inj heq
        · rintro (hkind | hkept)
          · exact nomatch hkind
          · exact hfirst.not_keepsUnit hkept
  · intro m hvalid hrecord
    rw [appendRecord_eq, receive_of_hasRecord hvalid hholds.connected hrecord]
    rfl

/-- The record of that commit in another unit than `recordAt` has. -/
def inMilliseconds (commitId : String) : Measurement :=
  { recordAt commitId with unit := .milliseconds }

-- The commit of a record once more in another unit: as a batch a duplicate for a durable ledger
-- only, as a record for a ledger in memory too.
theorem append_of_repeatedCommit_otherUnit :
    (Kind.durable.empty.after (.appendRecord (recordAt "c1"))).append "cargo"
      (recordAt "c1").commit [inMilliseconds "c1"] = .error (.duplicateCommit "cargo" "c1") ∧
    (Kind.resident.empty.after (.appendRecord (recordAt "c1"))).append "cargo"
      (recordAt "c1").commit [inMilliseconds "c1"] =
        .error (.unitMismatch ⟨"cargo", "x"⟩ .nanosecondsPerIteration .milliseconds) ∧
    (Kind.resident.empty.after (.appendRecord (recordAt "c1"))).appendRecord
      (inMilliseconds "c1") = .error (.duplicateCommit "cargo" "c1") := by
  have hbatch : validateBatch "cargo" (recordAt "c1").commit [inMilliseconds "c1"] = .ok () := by
    decide +kernel
  have hrecorded (kind : Kind) :
      (kind.empty.after (.appendRecord (recordAt "c1"))).Recorded "cargo" "c1" := by
    refine ⟨"x", ?_⟩
    cases kind <;> decide +kernel
  have hunit : (Kind.resident.empty.after (.appendRecord (recordAt "c1"))).unit?
      (inMilliseconds "c1").key = .ok (some .nanosecondsPerIteration) := by
    decide +kernel
  refine ⟨?_, ?_, ?_⟩
  · exact ((append_of_repeatedCommit (Reachable.empty.call _)).1 "cargo" _ _ hbatch
      (hrecorded .durable)).1.2 (.inl rfl)
  · have hchanged : ¬(Kind.resident = .durable ∨ ∀ m ∈ [inMilliseconds "c1"],
        (Kind.resident.empty.after (.appendRecord (recordAt "c1"))).KeepsUnit m) := by
      rintro (hkind | hkept)
      · exact absurd hkind (by decide)
      · exact absurd (hkept _ (List.mem_singleton_self _) _ hunit) (by decide)
    obtain ⟨m, unit, hfirst, hfail⟩ := ((append_of_repeatedCommit (Reachable.empty.call _)).1
      "cargo" _ _ hbatch (hrecorded .resident)).2 hchanged
    obtain rfl := List.mem_singleton.1 hfirst.mem
    have hseries := hfirst.series
    rw [hunit] at hseries
    obtain rfl := Option.some.inj (Except.ok.inj hseries)
    exact hfail
  · have hvalid : (inMilliseconds "c1").validate = .ok () := by decide +kernel
    exact (append_of_repeatedCommit (Reachable.empty.call _)).2 (inMilliseconds "c1")
      (Measurement.validate_eq_ok.1 hvalid) (by decide +kernel)

end Ledger

end BenchLedger
