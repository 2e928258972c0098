import BenchLedger.Dashboard.Import
import BenchLedger.Proofs.Ingest.Entries
import BenchLedger.Proofs.Ledger.Alike

/-!
# Runs entry by entry

What becomes of a measurement is decided by its own series.  The measurements of a run have
different names, so each of them meets the ledger as it was before the run, and the outcome of the
run can be read off entry by entry.
-/

namespace BenchLedger

/-- The measurement is valid and is one of that tool and commit. -/
structure Measurement.Proper (tool commitId : String) (m : Measurement) : Prop where
  valid : m.Valid
  tool : m.tool = tool
  commitId : m.commit.id = commitId

theorem Measurement.Proper.key {tool commitId : String} {m : Measurement}
    (h : m.Proper tool commitId) : m.key = ⟨tool, m.name⟩ := by
  rw [Measurement.key, h.tool]

/-- The alert that an outcome with that status raises. -/
def Status.alerts (commitUrl : String) : Status → List Alert
  | evaluated verdict _ => if verdict.isRegressed then [⟨commitUrl, verdict⟩] else []
  | _ => []

theorem Status.alerts_of_not_stored {status : Status} (h : status.isStored = false)
    (commitUrl : String) : status.alerts commitUrl = [] := by
  cases status with
  | evaluated => exact nomatch h
  | _ => rfl

namespace Service

variable {s s' : Service} {tool : String} {commit : Commit} {m : Measurement}

-- A measurement that is not of the run, or not valid, is rejected whatever the ledger holds.
theorem ingestMeasurement_of_not_proper (h : ¬m.Proper tool commit.id) :
    ∃ reason, ∀ s : Service,
      s.ingestMeasurement tool commit m = (.rejected .invalidRecord reason, s) := by
  unfold ingestMeasurement
  cases hvalid : m.validate with
  | error e => exact ⟨_, fun _ => rfl⟩
  | ok _ =>
    cases hbelongs : m.ensureBelongs tool commit.id with
    | error e => exact ⟨_, fun _ => rfl⟩
    | ok _ =>
      obtain ⟨htool, hid⟩ := Measurement.ensureBelongs_eq_ok.1 hbelongs
      exact absurd ⟨Measurement.validate_eq_ok.1 hvalid, htool, hid⟩ h

theorem ingestMeasurement_of_proper (h : m.Proper tool commit.id) (s : Service) :
    s.ingestMeasurement tool commit m =
      match s.ledger.receive m with
      | .error e => (refusal e, s)
      | .ok receipt =>
        { s with ledger := s.ledger.put m }.judge ⟨tool, m.name⟩ commit receipt.outOfOrder := by
  unfold ingestMeasurement
  rw [Measurement.validate_eq_ok.2 h.valid,
    Measurement.ensureBelongs_eq_ok.2 ⟨h.tool, h.commitId⟩, Ledger.appendRecord_eq]
  cases s.ledger.receive m <;> rfl

-- A judgement depends on the settings and on the series that is judged.
theorem judge_eq {key : SeriesKey} (hsettings : s.settings = s'.settings)
    (hseries : s.ledger.series key = s'.ledger.series key) (commit : Commit) (outOfOrder : Bool) :
    s.judge key commit outOfOrder =
      ((s'.judge key commit outOfOrder).1,
        { s with
          alerts := s.alerts ++ (s'.judge key commit outOfOrder).1.alerts commit.url }) := by
  have hunchanged : { s with alerts := s.alerts ++ [] } = s := by rw [List.append_nil]
  unfold judge
  rw [hseries]
  cases s'.ledger.series key with
  | error e => exact congrArg _ hunchanged.symm
  | ok series =>
    have hverdict : Analysis.assess s.settings series commit.id =
        Analysis.assess s'.settings series commit.id := by rw [hsettings]
    dsimp only
    rw [hverdict]
    cases Analysis.assess s'.settings series commit.id with
    | error e => exact congrArg _ hunchanged.symm
    | ok verdict =>
      dsimp only [Status.alerts]
      by_cases hregressed : verdict.isRegressed = true
      · rw [if_pos hregressed, if_pos hregressed]
      · rw [if_neg hregressed, if_neg hregressed, hunchanged]

/-- What becomes of a measurement that is handed in now. -/
def statusOf (s : Service) (tool : String) (commit : Commit) (m : Measurement) : Status :=
  (s.ingestMeasurement tool commit m).1

def outcomeOf (s : Service) (tool : String) (commit : Commit) (m : Measurement) : Outcome :=
  ⟨m.name, s.statusOf tool commit m⟩

/-- Those of the measurements that would be stored if each were handed in now. -/
def storedOf (s : Service) (tool : String) (commit : Commit) (ms : List Measurement) :
    List Measurement :=
  ms.filter fun m => (s.statusOf tool commit m).isStored

/-- The alerts that the measurements would raise if each were handed in now. -/
def alertsOf (s : Service) (tool : String) (commit : Commit) (ms : List Measurement) :
    List Alert :=
  ms.flatMap fun m => (s.statusOf tool commit m).alerts commit.url

/-- The service with what comes of the measurements if each were handed in now. -/
def taking (s : Service) (tool : String) (commit : Commit) (ms : List Measurement) : Service :=
  { s with
    ledger := s.ledger.putAll (s.storedOf tool commit ms)
    alerts := s.alerts ++ s.alertsOf tool commit ms }

theorem statusOf_of_proper (h : m.Proper tool commit.id) (s : Service) :
    s.statusOf tool commit m =
      match s.ledger.receive m with
      | .error e => refusal e
      | .ok receipt =>
        ({ s with ledger := s.ledger.put m }.judge ⟨tool, m.name⟩ commit receipt.outOfOrder).1 := by
  rw [statusOf, ingestMeasurement_of_proper h]
  cases s.ledger.receive m <;> rfl

theorem proper_of_isStored (h : (s.statusOf tool commit m).isStored = true) :
    m.Proper tool commit.id := by
  by_contra hproper
  obtain ⟨reason, hrejected⟩ := ingestMeasurement_of_not_proper hproper
  rw [statusOf, hrejected] at h
  exact absurd h Bool.noConfusion

theorem statusOf_congr (hsettings : s.settings = s'.settings)
    (hledger : Ledger.SameSeries ⟨tool, m.name⟩ s.ledger s'.ledger) :
    s.statusOf tool commit m = s'.statusOf tool commit m := by
  by_cases hm : m.Proper tool commit.id
  · have hreceive : s.ledger.receive m = s'.ledger.receive m := by
      rw [← hm.key] at hledger
      exact hledger.receive
    rw [statusOf_of_proper hm, statusOf_of_proper hm, hreceive]
    cases s'.ledger.receive m with
    | error e => rfl
    | ok receipt =>
      have hsame : [m].filter (·.key = ⟨tool, m.name⟩) = [m].filter (·.key = ⟨tool, m.name⟩) := rfl
      have hput : Ledger.SameSeries ⟨tool, m.name⟩ (s.ledger.put m) (s'.ledger.put m) :=
        hledger.putAll hsame
      have hjudge := @judge_eq { s with ledger := s.ledger.put m }
        { s' with ledger := s'.ledger.put m } _ hsettings hput.series commit receipt.outOfOrder
      dsimp only
      rw [hjudge]
  · obtain ⟨reason, hrejected⟩ := ingestMeasurement_of_not_proper hm
    rw [statusOf, statusOf, hrejected, hrejected]

theorem ingestMeasurement_eq (s : Service) (tool : String) (commit : Commit) (m : Measurement) :
    s.ingestMeasurement tool commit m = (s.statusOf tool commit m, s.taking tool commit [m]) := by
  have hnothing : (s.statusOf tool commit m).isStored = false → s.taking tool commit [m] = s := by
    intro h
    have hstored : s.storedOf tool commit [m] = [] := by simp [storedOf, h]
    have halerts : s.alertsOf tool commit [m] = [] := by
      simp [alertsOf, Status.alerts_of_not_stored h]
    rw [taking, hstored, halerts, List.append_nil]
    rfl
  by_cases hm : m.Proper tool commit.id
  · have hstatus := statusOf_of_proper hm s
    rw [ingestMeasurement_of_proper hm]
    cases hreceive : s.ledger.receive m with
    | error e =>
      rw [hreceive] at hstatus
      have hrefused : (s.statusOf tool commit m).isStored = false := by
        rw [hstatus, isStored_refusal]
      rw [hnothing hrefused, hstatus]
    | ok receipt =>
      rw [hreceive] at hstatus
      have hjudge := @judge_eq { s with ledger := s.ledger.put m }
        { s with ledger := s.ledger.put m } ⟨tool, m.name⟩ rfl rfl commit receipt.outOfOrder
      have hkept : (s.statusOf tool commit m).isStored = true := by
        rw [hstatus]
        exact (judge_spec _ _ _ _).1
      have hstored : s.storedOf tool commit [m] = [m] := by simp [storedOf, hkept]
      have halerts : s.alertsOf tool commit [m] = (s.statusOf tool commit m).alerts commit.url := by
        simp [alertsOf]
      dsimp only at hstatus hjudge ⊢
      rw [hjudge, taking, hstored, halerts, hstatus]
      rfl
  · obtain ⟨reason, hrejected⟩ := ingestMeasurement_of_not_proper hm
    have hstatus : s.statusOf tool commit m = .rejected .invalidRecord reason := by
      rw [statusOf, hrejected]
    have hrefused : (s.statusOf tool commit m).isStored = false := by
      rw [hstatus]
      rfl
    rw [hnothing hrefused, hrejected, hstatus]

-- What came before of other benchmarks makes no difference to a measurement.
theorem statusOf_taking {m' : Measurement} (hne : m'.name ≠ m.name) (s : Service) (tool : String)
    (commit : Commit) :
    (s.taking tool commit [m]).statusOf tool commit m' = s.statusOf tool commit m' := by
  have hother : (s.storedOf tool commit [m]).filter (·.key = ⟨tool, m'.name⟩) = [] := by
    apply List.filter_eq_nil_iff.2
    intro old hold hkey
    obtain rfl : old = m := by simpa using List.mem_of_mem_filter hold
    have hname : old.name = m'.name := congrArg SeriesKey.name (of_decide_eq_true hkey)
    exact hne hname.symm
  have hsame : (s.storedOf tool commit [m]).filter (·.key = ⟨tool, m'.name⟩) =
      ([] : List Measurement).filter (·.key = ⟨tool, m'.name⟩) := hother
  have hsettings : (s.taking tool commit [m]).settings = s.settings := rfl
  apply statusOf_congr hsettings
  exact (Ledger.SameSeries.refl ⟨tool, m'.name⟩ s.ledger).putAll hsame

theorem taking_taking {ms : List Measurement} (s : Service) (tool : String) (commit : Commit)
    (hne : ∀ m' ∈ ms, m'.name ≠ m.name) :
    (s.taking tool commit [m]).taking tool commit ms = s.taking tool commit (m :: ms) := by
  have hstored : s.storedOf tool commit (m :: ms) =
      s.storedOf tool commit [m] ++ (s.taking tool commit [m]).storedOf tool commit ms := by
    have hrest : (s.taking tool commit [m]).storedOf tool commit ms =
        s.storedOf tool commit ms := by
      apply List.filter_congr
      intro m' hm'
      rw [statusOf_taking (hne m' hm')]
    rw [hrest]
    exact List.filter_append [m] ms
  have halerts : s.alertsOf tool commit (m :: ms) =
      s.alertsOf tool commit [m] ++ (s.taking tool commit [m]).alertsOf tool commit ms := by
    have hrest : (s.taking tool commit [m]).alertsOf tool commit ms =
        s.alertsOf tool commit ms := by
      apply List.flatMap_congr
      intro m' hm'
      rw [statusOf_taking (hne m' hm')]
    rw [hrest, alertsOf, alertsOf, alertsOf, ← List.flatMap_append]
    rfl
  rw [taking.eq_def s tool commit (m :: ms), hstored, halerts, Ledger.putAll_append,
    ← List.append_assoc]
  rfl

/-- Measurements of different benchmarks that are handed in one after another fare as if each were
handed in first. -/
theorem ingestEach_eq {ms : List Measurement} (hnames : (ms.map (·.name)).Nodup) (s : Service)
    (tool : String) (commit : Commit) :
    s.ingestEach tool commit ms =
      (ms.map (s.outcomeOf tool commit), s.taking tool commit ms) := by
  induction ms generalizing s with
  | nil =>
    have hnothing : s.taking tool commit [] = s := by
      rw [taking, storedOf, alertsOf, List.filter_nil, List.flatMap_nil, List.append_nil]
      rfl
    rw [ingestEach, hnothing, List.map_nil]
  | cons m ms ih =>
    obtain ⟨hfresh, hnames⟩ := List.nodup_cons.1 hnames
    have hne : ∀ m' ∈ ms, m'.name ≠ m.name := by
      intro m' hm' hname
      exact hfresh (List.mem_map.2 ⟨m', hm', hname⟩)
    have houtcomes : ms.map ((s.taking tool commit [m]).outcomeOf tool commit) =
        ms.map (s.outcomeOf tool commit) := by
      apply List.map_congr_left
      intro m' hm'
      rw [outcomeOf, outcomeOf, statusOf_taking (hne m' hm')]
    rw [ingestEach, ingestMeasurement_eq]
    dsimp only
    rw [ih hnames, houtcomes, taking_taking s tool commit hne]
    rfl

end Service

namespace Slot

/-- What a report says at that place, where each pending measurement has its outcome. -/
def outcome (f : Measurement → Outcome) : Slot → Outcome
  | settled o => o
  | pending m => f m

theorem fill_map (f : Measurement → Outcome) (slots : List Slot) :
    fill slots ((slots.filterMap pending?).map f) = slots.map (outcome f) := by
  induction slots with
  | nil => rfl
  | cons slot slots ih =>
    cases slot with
    | settled o => exact congrArg (o :: ·) ih
    | pending m => exact congrArg (f m :: ·) ih

/-- The place that an entry is given after those names. -/
def ofEntry (seen : List String) : Except Rejection Measurement → Slot
  | .error e => settled ⟨e.name, .rejected .invalidRecord e.cause.message⟩
  | .ok m =>
    if seen.contains m.name then
      settled ⟨m.name, .rejected .duplicateInBatch
        ("benchmark " ++ m.name ++ " appears more than once in the run")⟩
    else pending m

/-- The names that count as seen after an entry. -/
def seenAfter (seen : List String) : Except Rejection Measurement → List String
  | .error _ => seen
  | .ok m => if seen.contains m.name then seen else m.name :: seen

theorem ofEntries_cons (seen : List String) (entry : Except Rejection Measurement)
    (entries : List (Except Rejection Measurement)) :
    ofEntries seen (entry :: entries) =
      ofEntry seen entry :: ofEntries (seenAfter seen entry) entries := by
  cases entry with
  | error e => rfl
  | ok m =>
    rw [ofEntries, ofEntry, seenAfter]
    by_cases hseen : seen.contains m.name = true
    · rw [if_pos hseen, if_pos hseen, if_pos hseen]
    · rw [if_neg hseen, if_neg hseen, if_neg hseen]

theorem mem_seenAfter_ok {seen : List String} {m : Measurement} {name : String} :
    name ∈ seenAfter seen (.ok m) ↔ name = m.name ∨ name ∈ seen := by
  rw [seenAfter]
  by_cases hseen : seen.contains m.name = true
  · rw [if_pos hseen]
    have hmem : m.name ∈ seen := List.contains_iff_mem.1 hseen
    exact ⟨.inr, fun h => h.elim (fun heq => heq ▸ hmem) id⟩
  · rw [if_neg hseen, List.mem_cons]

/-- The measurements of a run that are to be recorded. -/
def pendingOf (seen : List String) (entries : List (Except Rejection Measurement)) :
    List Measurement :=
  (ofEntries seen entries).filterMap pending?

theorem pendingOf_cons (seen : List String) (entry : Except Rejection Measurement)
    (entries : List (Except Rejection Measurement)) :
    pendingOf seen (entry :: entries) =
      (ofEntry seen entry).pending?.toList ++ pendingOf (seenAfter seen entry) entries := by
  rw [pendingOf, ofEntries_cons]
  cases ofEntry seen entry <;> rfl

-- A name that was seen before in the run is not pending again.
theorem nodup_pendingOf (seen : List String) (entries : List (Except Rejection Measurement)) :
    ((pendingOf seen entries).map (·.name)).Nodup ∧
      ∀ m ∈ pendingOf seen entries, m.name ∉ seen := by
  unfold pendingOf
  induction entries generalizing seen with
  | nil => simp [ofEntries]
  | cons entry entries ih =>
    obtain ⟨hnames, hfresh⟩ := ih (seenAfter seen entry)
    rw [ofEntries_cons]
    cases entry with
    | error e => exact ⟨hnames, hfresh⟩
    | ok m =>
      have hrest : ∀ m' ∈ (ofEntries (seenAfter seen (.ok m)) entries).filterMap pending?,
          m'.name ≠ m.name ∧ m'.name ∉ seen := by
        intro m' hm'
        have hnew := hfresh m' hm'
        rw [mem_seenAfter_ok, not_or] at hnew
        exact hnew
      by_cases hseen : seen.contains m.name = true
      · rw [ofEntry, if_pos hseen]
        exact ⟨hnames, fun m' hm' => (hrest m' hm').2⟩
      · rw [ofEntry, if_neg hseen]
        have hnew : m.name ∉ seen := by simpa using hseen
        constructor
        · apply List.nodup_cons.2
          refine ⟨fun hmem => ?_, hnames⟩
          obtain ⟨m', hm', hname⟩ := List.mem_map.1 hmem
          exact (hrest m' hm').1 hname
        · exact List.forall_mem_cons.2 ⟨hnew, fun m' hm' => (hrest m' hm').2⟩

end Slot

/-- The name of the benchmark that an entry of a run is of. -/
def entryName : Except Rejection Measurement → String
  | .error e => e.name
  | .ok m => m.name

namespace Service

/-- The report on a run: each measurement fares as if it were handed in first. -/
def reportOf (s : Service) (tool : String) (commit : Commit)
    (entries : List (Except Rejection Measurement)) : Report where
  tool := tool
  commitId := commit.id
  outcomes := (Slot.ofEntries [] entries).map (Slot.outcome (s.outcomeOf tool commit))

-- A report names each entry, in their order.
theorem benchmark_reportOf (s : Service) (tool : String) (commit : Commit)
    (entries : List (Except Rejection Measurement)) :
    (s.reportOf tool commit entries).outcomes.map (·.benchmark) = entries.map entryName := by
  have hplaces : ∀ seen, ((Slot.ofEntries seen entries).map
      (Slot.outcome (s.outcomeOf tool commit))).map (·.benchmark) = entries.map entryName := by
    induction entries with
    | nil => exact fun _ => rfl
    | cons entry entries ih =>
      intro seen
      have hname : (Slot.outcome (s.outcomeOf tool commit) (Slot.ofEntry seen entry)).benchmark =
          entryName entry := by
        cases entry with
        | error e => rfl
        | ok m =>
          rw [Slot.ofEntry]
          split <;> rfl
      rw [Slot.ofEntries_cons, List.map_cons, List.map_cons, List.map_cons, hname, ih]
  exact hplaces []

theorem ingestEntries_eq (s : Service) (tool : String) (commit : Commit)
    (entries : List (Except Rejection Measurement)) :
    s.ingestEntries tool commit entries =
      (s.reportOf tool commit entries,
        { s.taking tool commit (Slot.pendingOf [] entries) with
          totals := Totals.record tool (s.reportOf tool commit entries).tally s.totals }) := by
  have hnames := (Slot.nodup_pendingOf [] entries).1
  have heach := ingestEach_eq hnames s tool commit
  unfold Slot.pendingOf at heach
  unfold ingestEntries
  dsimp only
  rw [heach]
  dsimp only
  rw [Slot.fill_map]
  rfl

theorem importRuns_cons_ok {suite : String} {run : Run} (h : run.validateHeader = .ok ())
    (s : Service) (runs : List (String × Run)) :
    s.importRuns ((suite, run) :: runs) =
      let one := s.ingestEntries run.tool run.commit run.entries
      let rest := one.2.importRuns runs
      ({ rest.1 with reports := one.1 :: rest.1.reports }, rest.2) := by
  rw [importRuns, ingestRun, h]

theorem importRuns_cons_error {suite : String} {run : Run} {e : Invalid}
    (h : run.validateHeader = .error e) (s : Service) (runs : List (String × Run)) :
    s.importRuns ((suite, run) :: runs) =
      let rest := s.importRuns runs
      ({ rest.1 with
          skipped := ⟨suite, run.commit.id, InvalidRun.message ⟨e⟩⟩ :: rest.1.skipped },
        rest.2) := by
  rw [importRuns, ingestRun, h]

end Service

end BenchLedger
