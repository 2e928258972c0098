import BenchLedger.Proofs.Ingest.Batch
import BenchLedger.Proofs.Ledger.Calls

/-!
# Runs and their measurements

A run may be ingested as it was reported, or as the measurements that it reports.  A run checks each
entry before its name counts as seen; measurements are checked only after that, so an invalid one
takes its name away from the others.
-/

namespace BenchLedger

/-- `m` is what an entry of the run says, whether it is valid or not. -/
structure Run.Describes (r : Run) (b : Bench) (m : Measurement) : Prop where
  tool : m.tool = r.tool
  commit : m.commit = r.commit
  name : m.name = b.name
  value : m.value = b.value
  range : RangeText.read? b.range = some m.range
  unit : MeasureUnit.read? b.unit = some m.unit
  recordedAt : r.recordedAt = .ok m.recordedAt

/-- The entry of a run that says that. -/
def Measurement.entry (m : Measurement) : Except Rejection Measurement :=
  match m.validate with
  | .ok _ => .ok m
  | .error e => .error ⟨m.name, e⟩

theorem Measurement.entry_of_valid {m : Measurement} (h : m.Valid) : m.entry = .ok m := by
  rw [entry, validate_eq_ok.2 h]

theorem Measurement.entry_of_not_valid {m : Measurement} (h : ¬m.Valid) :
    ∃ e, m.validate = .error e ∧ m.entry = .error ⟨m.name, e⟩ := by
  obtain ⟨e, he⟩ : ∃ e, m.validate = .error e :=
    Fallible.exists_error fun _ hok => h (validate_eq_ok.1 hok)
  rw [entry, he]
  exact ⟨e, rfl, rfl⟩

section Entries

variable {r : Run} {b : Bench} {m : Measurement}

theorem Run.recordedAt_eq_ok {t : Instant} :
    r.recordedAt = .ok t ↔ Instant.ofMillis? r.date = some t := by
  unfold recordedAt
  split
  case h_1 t' ht => rw [ht, Except.ok.injEq, Option.some.injEq]
  case h_2 hnone => rw [hnone]; exact iff_of_false Fallible.error_ne_ok nofun

-- What is read of an entry is checked last.
theorem Run.Describes.measurement_eq (h : r.Describes b m) :
    r.measurement b = m.validate >>= fun _ => .ok m := by
  obtain ⟨tool, commit, name, value, range, unit, recordedAt⟩ := m
  obtain ⟨rfl, rfl, rfl, rfl, hrange, hunit, hdate⟩ := h
  rw [measurement, hdate, Fallible.ok_bind, hrange, hunit]
  rfl

theorem Run.Describes.entry_eq (h : r.Describes b m) :
    (r.measurement b).mapError (⟨b.name, ·⟩) = m.entry := by
  rw [h.measurement_eq, Measurement.entry, ← h.name]
  cases m.validate <;> rfl

theorem Run.entries_eq {records : List Measurement}
    (h : List.Forall₂ r.Describes r.benches records) : r.entries = records.map (·.entry) := by
  unfold entries
  generalize r.benches = benches at h
  induction h with
  | nil => rfl
  | @cons b m bs ms hm _ ih => rw [List.map_cons, List.map_cons, hm.entry_eq, ih]

theorem Run.validateHeader_eq_ok_iff : r.validateHeader = .ok () ↔
    Text.isAllBlank r.tool = false ∧ r.commit.validate = .ok () ∧ ∃ t, r.recordedAt = .ok t := by
  have hdate : discard r.recordedAt = .ok () ↔ ∃ t, r.recordedAt = .ok t :=
    Fallible.map_eq_ok.trans (exists_congr fun _ => and_iff_left rfl)
  unfold validateHeader
  simp only [Fallible.check_eq_ok, Fallible.then_eq_ok, Bool.not_eq_true, hdate]

theorem Run.validateHeader_eq_ok (h : r.validateHeader = .ok ()) :
    Text.isAllBlank r.tool = false ∧ r.commit.validate = .ok () := by
  obtain ⟨htool, hcommit, -⟩ := validateHeader_eq_ok_iff.1 h
  exact ⟨htool, hcommit⟩

end Entries

namespace Slot

variable {seen seen' : List String} {m : Measurement}

theorem mem_seenAfter_entry {name : String} :
    name ∈ seenAfter seen m.entry ↔ m.Valid ∧ name = m.name ∨ name ∈ seen := by
  by_cases hvalid : m.Valid
  · rw [Measurement.entry_of_valid hvalid, mem_seenAfter_ok]
    simp only [hvalid, true_and]
  · obtain ⟨e, -, hentry⟩ := Measurement.entry_of_not_valid hvalid
    rw [hentry, seenAfter]
    simp only [hvalid, false_and, false_or]

/-- No name is spoilt for the measurements: where one occurs again, among those in `seen'` of all
measurements before them or among their own, both that have it are valid.  Of the names before
them, `seen` are those of valid measurements. -/
structure Unspoilt (seen seen' : List String) (ms : List Measurement) : Prop where
  before : ∀ m ∈ ms, m.name ∈ seen' → m.Valid ∧ m.name ∈ seen
  among : ms.Pairwise fun a b => a.name = b.name → a.Valid ∧ b.Valid

theorem unspoilt_nil_iff {ms : List Measurement} :
    Unspoilt [] [] ms ↔ ms.Pairwise fun a b => a.name = b.name → a.Valid ∧ b.Valid :=
  ⟨fun h => h.among, fun h => ⟨fun _ _ => nofun, h⟩⟩

-- What is spoilt shows at the first measurement or at a later one.
theorem unspoilt_cons_iff {ms : List Measurement} (hseen : ∀ name ∈ seen, name ∈ seen') :
    Unspoilt seen seen' (m :: ms) ↔ (m.name ∈ seen' → m.Valid ∧ m.name ∈ seen) ∧
      Unspoilt (seenAfter seen m.entry) (seenAfter seen' (.ok m)) ms := by
  constructor
  · rintro ⟨hbefore, hamong⟩
    obtain ⟨hhere, hlater⟩ := List.forall_mem_cons.1 hbefore
    obtain ⟨hfirst, hrest⟩ := List.pairwise_cons.1 hamong
    refine ⟨hhere, ?_, hrest⟩
    intro m' hm' hname
    rw [mem_seenAfter_entry]
    cases mem_seenAfter_ok.1 hname with
    | inl heq =>
      obtain ⟨hvalid, hvalid'⟩ := hfirst m' hm' heq.symm
      exact ⟨hvalid', .inl ⟨hvalid, heq⟩⟩
    | inr hold =>
      obtain ⟨hvalid', hold⟩ := hlater m' hm' hold
      exact ⟨hvalid', .inr hold⟩
  · rintro ⟨hhere, hlater, hrest⟩
    constructor
    · refine List.forall_mem_cons.2 ⟨hhere, fun m' hm' hold => ?_⟩
      obtain ⟨hvalid', hname⟩ := hlater m' hm' (mem_seenAfter_ok.2 (.inr hold))
      refine ⟨hvalid', ?_⟩
      cases mem_seenAfter_entry.1 hname with
      | inl heq =>
        rw [heq.2] at hold ⊢
        exact (hhere hold).2
      | inr hold => exact hold
    · apply List.pairwise_cons.2
      refine ⟨fun m' hm' heq => ?_, hrest⟩
      obtain ⟨hvalid', hname⟩ := hlater m' hm' (mem_seenAfter_ok.2 (.inl heq.symm))
      refine ⟨?_, hvalid'⟩
      cases mem_seenAfter_entry.1 hname with
      | inl hvalid => exact hvalid.1
      | inr hold =>
        rw [← heq] at hold
        exact (hhere (hseen m.name hold)).1

end Slot

namespace Service

variable {s : Service} {tool : String} {commit : Commit} {m : Measurement}

-- Names are compared before anything is handed in.
theorem statusOf_ne_duplicateInBatch (s : Service) (tool : String) (commit : Commit)
    (m : Measurement) (reason : String) :
    s.statusOf tool commit m ≠ .rejected .duplicateInBatch reason := by
  by_cases hproper : m.Proper tool commit.id
  · rw [statusOf_of_proper hproper]
    cases s.ledger.receive m with
    | error e => cases e <;> simp [refusal]
    | ok receipt =>
      intro heq
      have hstored := (judge_spec { s with ledger := s.ledger.put m } ⟨tool, m.name⟩ commit
        receipt.outOfOrder).1
      exact nomatch (congrArg Status.isStored heq).symm.trans hstored
  · obtain ⟨_, hrejected⟩ := ingestMeasurement_of_not_proper hproper
    rw [statusOf, hrejected]
    simp

theorem statusOf_of_not_valid {e : Invalid} (h : m.validate = .error e) (s : Service)
    (tool : String) (commit : Commit) :
    s.statusOf tool commit m = .rejected .invalidRecord e.message := by
  rw [statusOf, ingestMeasurement, h]

variable {seen seen' : List String}

/-- Where its name is not spoilt a measurement has the same place, or one at which it is rejected
only when it is handed in. -/
theorem ofEntry_entry (hseen : ∀ name ∈ seen, name ∈ seen')
    (h : m.name ∈ seen' → m.Valid ∧ m.name ∈ seen) (s : Service) (tool : String) (commit : Commit) :
    Slot.ofEntry seen m.entry = Slot.ofEntry seen' (.ok m) ∨
      Slot.ofEntry seen m.entry = .settled (s.outcomeOf tool commit m) ∧
        Slot.ofEntry seen' (.ok m) = .pending m ∧
        (s.statusOf tool commit m).isStored = false := by
  by_cases hvalid : m.Valid
  · have hiff : m.name ∈ seen ↔ m.name ∈ seen' := ⟨hseen m.name, fun hmem => (h hmem).2⟩
    left
    rw [Measurement.entry_of_valid hvalid]
    simp only [Slot.ofEntry, List.contains_iff_mem, hiff]
  · obtain ⟨e, hvalidate, hentry⟩ := Measurement.entry_of_not_valid hvalid
    have hnew : ¬seen'.contains m.name = true :=
      fun hmem => hvalid (h (List.contains_iff_mem.1 hmem)).1
    have hstatus := statusOf_of_not_valid hvalidate s tool commit
    right
    rw [hentry, outcomeOf, hstatus, Slot.ofEntry, Slot.ofEntry, if_neg hnew]
    exact ⟨rfl, rfl, rfl⟩

theorem outcome_ofEntry_entry_eq_iff (hseen : ∀ name ∈ seen, name ∈ seen') (s : Service)
    (tool : String) (commit : Commit) :
    Slot.outcome (s.outcomeOf tool commit) (Slot.ofEntry seen m.entry) =
        Slot.outcome (s.outcomeOf tool commit) (Slot.ofEntry seen' (.ok m)) ↔
      (m.name ∈ seen' → m.Valid ∧ m.name ∈ seen) := by
  constructor
  · intro heq hmem
    -- the name was seen, so the second place says that it is a duplicate
    rw [Slot.ofEntry.eq_def seen' (.ok m)] at heq
    dsimp only at heq
    rw [if_pos (List.contains_iff_mem.2 hmem)] at heq
    have hstatus := congrArg Outcome.status heq
    by_cases hvalid : m.Valid
    · refine ⟨hvalid, ?_⟩
      by_contra hnew
      have hcontains : ¬seen.contains m.name = true := by simpa using hnew
      rw [Measurement.entry_of_valid hvalid, Slot.ofEntry, if_neg hcontains] at hstatus
      exact s.statusOf_ne_duplicateInBatch tool commit m _ hstatus
    · obtain ⟨e, -, hentry⟩ := Measurement.entry_of_not_valid hvalid
      rw [hentry] at hstatus
      exact absurd (Status.rejected.inj hstatus).1 (by decide)
  · intro h
    cases s.ofEntry_entry hseen h tool commit with
    | inl hsame => rw [hsame]
    | inr hrejected =>
      rw [hrejected.1, hrejected.2.1]
      rfl

theorem storedOf_append (s : Service) (tool : String) (commit : Commit)
    (ms ms' : List Measurement) :
    s.storedOf tool commit (ms ++ ms') =
      s.storedOf tool commit ms ++ s.storedOf tool commit ms' :=
  List.filter_append ms ms'

-- What is not stored raises no alert.
theorem alertsOf_storedOf (s : Service) (tool : String) (commit : Commit) (ms : List Measurement) :
    s.alertsOf tool commit (s.storedOf tool commit ms) = s.alertsOf tool commit ms := by
  induction ms with
  | nil => rfl
  | cons m ms ih =>
    have hcons : s.alertsOf tool commit (m :: ms) =
        (s.statusOf tool commit m).alerts commit.url ++ s.alertsOf tool commit ms := rfl
    rw [hcons, ← ih, storedOf, List.filter_cons]
    cases hstored : (s.statusOf tool commit m).isStored with
    | true => rfl
    | false =>
      rw [Status.alerts_of_not_stored hstored]
      rfl

theorem taking_congr {ms ms' : List Measurement}
    (h : s.storedOf tool commit ms = s.storedOf tool commit ms') :
    s.taking tool commit ms = s.taking tool commit ms' := by
  rw [taking, taking, ← alertsOf_storedOf s tool commit ms, h, alertsOf_storedOf]

/-- The places of the entries of a run and of its measurements say the same just if no name is
spoilt, and then the same measurements are stored. -/
theorem outcomes_ofEntries_entry {ms : List Measurement} (hseen : ∀ name ∈ seen, name ∈ seen')
    (s : Service) (tool : String) (commit : Commit) :
    ((Slot.ofEntries seen (ms.map (·.entry))).map (Slot.outcome (s.outcomeOf tool commit)) =
        (Slot.ofEntries seen' (ms.map .ok)).map (Slot.outcome (s.outcomeOf tool commit)) ↔
      Slot.Unspoilt seen seen' ms) ∧
    (Slot.Unspoilt seen seen' ms →
      s.storedOf tool commit (Slot.pendingOf seen (ms.map (·.entry))) =
        s.storedOf tool commit (Slot.pendingOf seen' (ms.map .ok))) := by
  induction ms generalizing seen seen' with
  | nil => exact ⟨⟨fun _ => ⟨by simp, .nil⟩, fun _ => rfl⟩, fun _ => rfl⟩
  | cons m ms ih =>
    have hafter : ∀ name ∈ Slot.seenAfter seen m.entry, name ∈ Slot.seenAfter seen' (.ok m) := by
      intro name hmem
      rw [Slot.mem_seenAfter_ok]
      cases Slot.mem_seenAfter_entry.1 hmem with
      | inl heq => exact .inl heq.2
      | inr hold => exact .inr (hseen name hold)
    obtain ⟨houtcomes, hstored⟩ := ih hafter
    rw [Slot.unspoilt_cons_iff hseen, List.map_cons, List.map_cons, Slot.ofEntries_cons,
      Slot.ofEntries_cons, List.map_cons, List.map_cons, List.cons_eq_cons, houtcomes,
      s.outcome_ofEntry_entry_eq_iff hseen]
    refine ⟨Iff.rfl, fun ⟨hhere, hrest⟩ => ?_⟩
    rw [Slot.pendingOf_cons, Slot.pendingOf_cons, storedOf_append, storedOf_append, hstored hrest]
    congr 1
    cases s.ofEntry_entry hseen hhere tool commit with
    | inl hsame => rw [hsame]
    | inr hrejected =>
      obtain ⟨hsettled, hpending, hnot⟩ := hrejected
      rw [hsettled, hpending]
      simp [Slot.pending?, storedOf, hnot]

/-- A run and the measurements that it reports are ingested alike, with the same report, ledger,
alerts and totals, just if no two of the measurements have one name of which one is not valid. -/
theorem ingest_eq_ingestRun_iff {r : Run} {records : List Measurement}
    (hheader : r.validateHeader = .ok ())
    (hrecords : List.Forall₂ r.Describes r.benches records) (s : Service) :
    ∃ asRun asRecords, s.ingestRun r = .ok asRun ∧
      s.ingest r.tool r.commit records = .ok asRecords ∧
      (asRecords.1 = asRun.1 ↔ records.Pairwise fun a b => a.name = b.name → a.Valid ∧ b.Valid) ∧
      (asRecords.1 = asRun.1 → asRecords = asRun) := by
  obtain ⟨htool, hcommit⟩ := Run.validateHeader_eq_ok hheader
  have hnone : ∀ name ∈ ([] : List String), name ∈ ([] : List String) := fun _ => id
  obtain ⟨houtcomes, hstored⟩ :=
    @outcomes_ofEntries_entry [] [] records hnone s r.tool r.commit
  have hreports : s.reportOf r.tool r.commit (records.map .ok) =
      s.reportOf r.tool r.commit (records.map (·.entry)) ↔ Slot.Unspoilt [] [] records := by
    rw [← houtcomes, reportOf, reportOf, Report.mk.injEq]
    simp only [true_and]
    exact eq_comm
  refine ⟨s.ingestEntries r.tool r.commit r.entries,
    s.ingestEntries r.tool r.commit (records.map .ok), ?_, ?_, ?_, ?_⟩
  · rw [ingestRun, hheader]
  · rw [ingest, if_neg (by simp [htool]), hcommit]
  · rw [ingestEntries_eq, ingestEntries_eq, Run.entries_eq hrecords, ← Slot.unspoilt_nil_iff]
    exact hreports
  · rw [ingestEntries_eq, ingestEntries_eq, Run.entries_eq hrecords]
    intro hsame
    dsimp only at hsame ⊢
    rw [hsame, taking_congr (hstored (hreports.1 hsame)).symm]

end Service

/-- A run that says two things of one benchmark, of which the first is not valid. -/
def Run.restated : Run where
  tool := "cargo"
  commit := (Ledger.recordAt "c1").commit
  date := 0
  benches := [⟨"x", -1, "± 1", "ns/iter"⟩, ⟨"x", 5, "± 1", "ns/iter"⟩]

namespace Service

-- The valid measurement is refused, for its name was taken by the one that is not.
theorem ingest_eq_ingestRun_iff_restated :
    let records := [{ Ledger.recordAt "c1" with value := -1 },
      { Ledger.recordAt "c1" with value := 5 }]
    let s : Service := { ledger := .resident {} }
    Run.restated.validateHeader = .ok () ∧
    List.Forall₂ Run.restated.Describes Run.restated.benches records ∧
    ∃ asRun asRecords, s.ingestRun Run.restated = .ok asRun ∧
      s.ingest Run.restated.tool Run.restated.commit records = .ok asRecords ∧
      asRecords.1 ≠ asRun.1 := by
  intro records s
  have hheader : Run.restated.validateHeader = .ok () := by decide +kernel
  have hrange : RangeText.read? "± 1" = some 1 := by decide +kernel
  have hunit : MeasureUnit.read? "ns/iter" = some .nanosecondsPerIteration := by decide +kernel
  have hdate : Run.restated.recordedAt = .ok .epoch := by decide +kernel
  have hrecords : List.Forall₂ Run.restated.Describes Run.restated.benches records :=
    .cons ⟨rfl, rfl, rfl, rfl, hrange, hunit, hdate⟩
      (.cons ⟨rfl, rfl, rfl, rfl, hrange, hunit, hdate⟩ .nil)
  obtain ⟨asRun, asRecords, hrun, heach, hiff, -⟩ := ingest_eq_ingestRun_iff hheader hrecords s
  refine ⟨hheader, hrecords, asRun, asRecords, hrun, heach, fun hsame => ?_⟩
  have hpair := (List.pairwise_cons.1 (hiff.1 hsame)).1
  have hfirst := (hpair { Ledger.recordAt "c1" with value := 5 } List.mem_cons_self rfl).1
  have hnegative : (-1 : Float) < 0 := by decide +kernel
  exact hfirst.value_nonneg hnegative

end Service

end BenchLedger
