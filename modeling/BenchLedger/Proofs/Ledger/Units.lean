import BenchLedger.Proofs.Ledger.KnownCommits

/-!
# Series keep their unit

A measurement whose commit is new to its series is recorded if it has the unit of the series.  A
ledger in memory compares units as they were given; a durable ledger keeps the text of a unit and
compares with what that text reads as, so that a unit which no text writes differs from itself
there.
-/

namespace BenchLedger.Ledger

variable {kind : Kind} {l : Ledger} {log : List Measurement} {m : Measurement}

/-- The measurement is in the unit of its series, if the series has one. -/
def KeepsUnit (l : Ledger) (m : Measurement) : Prop :=
  ∀ unit, l.unit? m.key = .ok (some unit) → unit = m.unit

theorem Holds.connected (h : Holds kind l log) : l.connected = .ok () := by
  cases h with
  | resident h => rfl
  | durable h => exact h.connected

theorem Holds.unit? (h : Holds kind l log) (key : SeriesKey) :
    l.unit? key = .ok (kind.unit? log key) := by
  cases h with
  | resident h => exact congrArg Except.ok (h.unit? key)
  | durable h => exact h.unit? key

theorem Holds.ensureUnit_eq_ok_iff (h : Holds kind l log) :
    ensureUnit (kind.unit? log m.key) m = .ok () ↔ l.KeepsUnit m := by
  unfold KeepsUnit
  rw [ensureUnit_eq_ok, h.unit?]
  simp

-- A unit that is refused is not that of the series.
theorem Holds.exists_of_ensureUnit_eq_error (h : Holds kind l log) {e : LedgerError}
    (hrefused : ensureUnit (kind.unit? log m.key) m = .error e) :
    ∃ unit, l.unit? m.key = .ok (some unit) ∧ unit ≠ m.unit ∧
      e = .unitMismatch m.key unit m.unit := by
  rw [h.unit?]
  cases hunit : kind.unit? log m.key with
  | none =>
    rw [hunit] at hrefused
    exact nomatch hrefused
  | some unit =>
    rw [hunit] at hrefused
    unfold ensureUnit at hrefused
    dsimp only at hrefused
    split at hrefused
    case isTrue hne => exact ⟨unit, rfl, hne, (Except.error.inj hrefused).symm⟩
    case isFalse => exact nomatch hrefused

/-- For a commit that is new to its series only the unit decides. -/
theorem Kind.receive_of_new (hvalid : m.Valid)
    (hnew : ∀ old ∈ log, old.key = m.key → old.commit.id ≠ m.commit.id) :
    (kind.receive log m).map (fun _ => ()) = ensureUnit (kind.unit? log m.key) m := by
  cases hunit : ensureUnit (kind.unit? log m.key) m with
  | ok _ =>
    obtain ⟨receipt, hreceipt⟩ :=
      Admits.exists_receipt (⟨hvalid, hnew, ensureUnit_eq_ok.1 hunit⟩ : kind.Admits log m)
    rw [hreceipt]
    rfl
  | error e =>
    have hfresh : ¬(log.filter (·.key = m.key)).any (·.commit.id == m.commit.id) = true := by
      simpa using hnew
    unfold receive
    rw [checked_eq_ok.2 (Measurement.validate_eq_ok.2 hvalid), Fallible.ok_bind, if_neg hfresh,
      hunit]
    rfl

theorem Holds.appendRecord_of_new (h : Holds kind l log) (hvalid : m.Valid)
    (hnew : ∀ old ∈ log, old.key = m.key → old.commit.id ≠ m.commit.id) :
    (l.appendRecord m).map (·.1) =
      (ensureUnit (kind.unit? log m.key) m).map fun _ => l.put m := by
  have hreceive := @Kind.receive_of_new kind log m hvalid hnew
  cases hunit : ensureUnit (kind.unit? log m.key) m with
  | ok _ =>
    obtain ⟨receipt, hrecord, -⟩ :=
      h.appendRecord_of_admits ⟨hvalid, hnew, ensureUnit_eq_ok.1 hunit⟩
    rw [hrecord]
    rfl
  | error e =>
    rw [hunit, Fallible.map_eq_error] at hreceive
    obtain ⟨l', hrecord, -⟩ := h.appendRecord m
    rw [hrecord, hreceive]
    rfl

namespace Kind

-- What is kept of a unit depends on the unit alone.
theorem unit_keep_congr (kind : Kind) {a b : Measurement} (h : a.unit = b.unit) :
    (kind.keep a).unit = (kind.keep b).unit := by
  cases kind with
  | resident => exact h
  | durable => simp only [keep, Measurement.stored, h]

theorem unit_keep_eq_iff (hvalid : m.Valid) :
    (kind.keep m).unit = m.unit ↔ kind = .resident ∨ m.unit.Written := by
  constructor
  · intro heq
    cases kind with
    | resident => exact .inl rfl
    | durable =>
      obtain ⟨unit, hunit⟩ := hvalid.exists_unit
      have hstored : unit = m.unit := (Measurement.stored_unit hunit).symm.trans heq
      exact .inr (MeasureUnit.written_iff.2 (by rw [hunit, hstored]))
  · rintro (rfl | hwritten)
    · rfl
    · exact kind.unit_keep hwritten

-- A series all of one unit is kept in what its ledger keeps of that unit.
theorem unit?_of_oneUnit (hunits : ∀ old ∈ log, old.key = m.key → old.unit = m.unit)
    (hsome : ∃ old ∈ log, old.key = m.key) :
    kind.unit? log m.key = some (kind.keep m).unit := by
  obtain ⟨old, hold, hkey⟩ := hsome
  obtain ⟨first, hfirst, hfkey, hunit⟩ := kind.exists_unit? hold
  have hsame : first.unit = m.unit := hunits first hfirst (hfkey.trans hkey)
  rw [← hkey, hunit, kind.unit_keep_congr hsame]

theorem unit?_of_none (hnone : ∀ old ∈ log, old.key ≠ m.key) : kind.unit? log m.key = none := by
  have hfilter : log.filter (·.key = m.key) = [] := by simpa using hnone
  rw [unit?, hfilter]
  rfl

end Kind

section OneUnit

-- All records of the series were appended in the unit of the measurement, at other commits.
variable (h : Holds kind l log) (hvalid : m.Valid)
  (hunits : ∀ old ∈ log, old.key = m.key → old.unit = m.unit)
  (hnew : ∀ old ∈ log, old.key = m.key → old.commit.id ≠ m.commit.id)
include h hvalid hunits hnew

theorem Holds.exists_appendRecord_of_kept
    (hkept : (kind = .resident ∨ m.unit.Written) ∨ ∀ old ∈ log, old.key ≠ m.key) :
    ∃ result, l.appendRecord m = .ok result := by
  have hunit : ∀ unit ∈ kind.unit? log m.key, unit = m.unit := by
    intro unit hunit
    by_cases hsome : ∃ old ∈ log, old.key = m.key
    · obtain ⟨old, hold, hkey⟩ := hsome
      have hkeep := hkept.resolve_right fun hnone => hnone old hold hkey
      rw [Kind.unit?_of_oneUnit hunits ⟨old, hold, hkey⟩] at hunit
      rw [← Option.some.inj hunit, (Kind.unit_keep_eq_iff hvalid).2 hkeep]
    · rw [Kind.unit?_of_none fun old hold hkey => hsome ⟨old, hold, hkey⟩] at hunit
      exact nomatch hunit
  obtain ⟨receipt, hrecord, -⟩ := h.appendRecord_of_admits ⟨hvalid, hnew, hunit⟩
  exact ⟨_, hrecord⟩

theorem Holds.appendRecord_of_unwritten {old : Measurement} (hold : old ∈ log)
    (hkey : old.key = m.key) (hunwritten : ¬(kind = .resident ∨ m.unit.Written)) :
    ∃ unit, MeasureUnit.read? m.unit.text = some unit ∧ unit ≠ m.unit ∧
      l.appendRecord m = .error (.unitMismatch m.key unit m.unit) := by
  have hne : (kind.keep m).unit ≠ m.unit := mt (Kind.unit_keep_eq_iff hvalid).1 hunwritten
  have hrecord := h.appendRecord_of_new hvalid hnew
  have hunit : kind.unit? log m.key = some (kind.keep m).unit :=
    Kind.unit?_of_oneUnit hunits ⟨old, hold, hkey⟩
  rw [hunit, ensureUnit, if_pos hne] at hrecord
  refine ⟨(kind.keep m).unit, ?_, hne, Fallible.map_eq_error.1 hrecord⟩
  cases kind with
  | resident => exact absurd (.inl rfl) hunwritten
  | durable =>
    obtain ⟨unit, hunit⟩ := hvalid.exists_unit
    rw [hunit]
    exact congrArg some (Measurement.stored_unit hunit).symm

end OneUnit

/-- A measurement of a new commit, in the unit in which all others of its series were appended, is
recorded in memory.  A durable ledger records it if it is the first of its series or some text
writes the unit; else it is refused for another unit, which is what the text of its own reads as. -/
theorem appendRecord_of_oneUnit (kind : Kind) (calls : List Call) (hvalid : m.Valid)
    (hunits : ∀ old ∈ kind.empty.log calls, old.key = m.key → old.unit = m.unit)
    (hnew : ∀ old ∈ kind.empty.log calls, old.key = m.key → old.commit.id ≠ m.commit.id) :
    ((∃ result, (kind.empty.run calls).appendRecord m = .ok result) ↔
      (kind = .resident ∨ m.unit.Written) ∨ ∀ old ∈ kind.empty.log calls, old.key ≠ m.key) ∧
    (∀ old ∈ kind.empty.log calls, old.key = m.key → ¬(kind = .resident ∨ m.unit.Written) →
      ∃ unit, MeasureUnit.read? m.unit.text = some unit ∧ unit ≠ m.unit ∧
        (kind.empty.run calls).appendRecord m = .error (.unitMismatch m.key unit m.unit)) := by
  have hholds := (Holds.empty kind).run calls
  rw [List.nil_append] at hholds
  refine ⟨⟨?_, hholds.exists_appendRecord_of_kept hvalid hunits hnew⟩, fun old =>
    hholds.appendRecord_of_unwritten hvalid hunits hnew⟩
  rintro ⟨result, hresult⟩
  by_contra hneither
  obtain ⟨hunwritten, hsome⟩ := not_or.1 hneither
  simp only [ne_eq, not_forall, not_not] at hsome
  obtain ⟨old, hold, hkey⟩ := hsome
  obtain ⟨unit, -, -, hfail⟩ :=
    hholds.appendRecord_of_unwritten hvalid hunits hnew hold hkey hunwritten
  rw [hresult] at hfail
  exact absurd hfail.symm Fallible.error_ne_ok

/-- A record of that commit in a unit whose text begins with a blank. -/
def framesAt (commitId : String) : Measurement :=
  { recordAt commitId with unit := .other " frames" }

-- The second commit of a series in that unit is recorded in memory and refused by a durable ledger.
theorem appendRecord_of_oneUnit_leadingBlank :
    (∃ result, (Kind.resident.empty.run [.appendRecord (framesAt "c1")]).appendRecord
      (framesAt "c2") = .ok result) ∧
    (Kind.durable.empty.run [.appendRecord (framesAt "c1")]).appendRecord (framesAt "c2") =
      .error (.unitMismatch ⟨"cargo", "x"⟩ (.other "frames") (.other " frames")) := by
  have hvalid : (framesAt "c2").Valid := by constructor <;> decide +kernel
  have hlog (kind : Kind) : kind.empty.log [.appendRecord (framesAt "c1")] = [framesAt "c1"] := by
    cases kind <;> decide +kernel
  have hunits (kind : Kind) : ∀ old ∈ kind.empty.log [.appendRecord (framesAt "c1")],
      old.key = (framesAt "c2").key → old.unit = (framesAt "c2").unit := by
    rw [hlog]
    exact List.forall_mem_singleton.2 fun _ => rfl
  have hnew (kind : Kind) : ∀ old ∈ kind.empty.log [.appendRecord (framesAt "c1")],
      old.key = (framesAt "c2").key → old.commit.id ≠ (framesAt "c2").commit.id := by
    rw [hlog]
    exact List.forall_mem_singleton.2 fun _ => by decide
  constructor
  · exact (appendRecord_of_oneUnit .resident _ hvalid (hunits _) (hnew _)).1.2 (.inl (.inl rfl))
  · have hunwritten : ¬(Kind.durable = .resident ∨ (framesAt "c2").unit.Written) := by
      rintro (hkind | hwritten)
      · exact absurd hkind (by decide)
      · exact absurd (MeasureUnit.written_other_iff.1 hwritten).1 (by decide +kernel)
    have hold : framesAt "c1" ∈ Kind.durable.empty.log [.appendRecord (framesAt "c1")] := by
      rw [hlog]
      exact List.mem_singleton_self _
    obtain ⟨unit, hunit, -, hfail⟩ :=
      (appendRecord_of_oneUnit .durable _ hvalid (hunits _) (hnew _)).2 _ hold rfl hunwritten
    have hread : MeasureUnit.read? " frames" = some (.other "frames") := by decide +kernel
    obtain rfl : unit = .other "frames" := Option.some.inj (hunit.symm.trans hread)
    exact hfail

end BenchLedger.Ledger
