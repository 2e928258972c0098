import BenchLedger.Proofs.Analysis.Verdicts
import BenchLedger.Proofs.Ingest.Repetition
import BenchLedger.Proofs.Ingest.Requests
import Mathlib.Data.List.Nodup

/-!
# Alerts and regressions

The alerts that a service raises are the regressions of its reports, each with the address of the
commit in the header.  A commit of a benchmark is stored once and judged when it is stored, so no
regression raises a second alert.
-/

namespace BenchLedger

/-- What an alert is about: a series and the id of a commit. -/
def Alert.subject (a : Alert) : SeriesKey × String :=
  (⟨a.verdict.tool, a.verdict.benchmark⟩, a.verdict.commitId)

theorem Row.key_of_measurement {r : Row} {m : Measurement} (h : r.measurement = .ok m) :
    r.key = m.key := by
  obtain ⟨_, -, h⟩ := Fallible.bind_eq_ok.1 h
  obtain ⟨_, -, h⟩ := Fallible.bind_eq_ok.1 h
  obtain ⟨_, -, h⟩ := Fallible.bind_eq_ok.1 h
  obtain rfl := Except.ok.inj h
  rfl

theorem Ledger.key_of_mem_series {l : Ledger} {key : SeriesKey} {s : Series}
    (h : l.series key = .ok s) {m : Measurement} (hm : m ∈ s.records) : m.key = key := by
  cases l with
  | resident r =>
    obtain rfl := Except.ok.inj h
    have hmem : m ∈ r.recordsOf key := (Order.stableSort_perm _ _).mem_iff.1 hm
    exact of_decide_eq_true (List.mem_filter.1 hmem).2
  | durable d =>
    obtain ⟨_, -, h⟩ := Fallible.bind_eq_ok.1 h
    obtain ⟨ms, hread, h⟩ := Fallible.bind_eq_ok.1 h
    obtain rfl := Except.ok.inj h
    have hmem : m ∈ ms := (Order.stableSort_perm _ _).mem_iff.1 hm
    obtain ⟨row, hrow, hrowm⟩ := Fallible.exists_of_mem_mapM hread hmem
    have hrows : row ∈ d.rowsOf key := (Order.stableSort_perm _ _).mem_iff.1 hrow
    rw [← Row.key_of_measurement hrowm]
    exact of_decide_eq_true (List.mem_filter.1 hrows).2

theorem Ledger.GrowsInto.hasRecord {l l' : Ledger} (h : l.GrowsInto l') {key : SeriesKey}
    {commitId : String} (hrecord : l.hasRecord key commitId = true) :
    l'.hasRecord key commitId = true := by
  obtain ⟨ms, rfl⟩ := h
  rw [Ledger.hasRecord_putAll, hrecord, Bool.true_or]

theorem Status.mem_alerts {status : Status} {commitUrl : String} {a : Alert} :
    a ∈ status.alerts commitUrl ↔
      ∃ v outOfOrder, status = .evaluated v outOfOrder ∧ v.isRegressed = true ∧
        a = ⟨commitUrl, v⟩ := by
  cases status with
  | evaluated v outOfOrder =>
    rw [alerts]
    by_cases hregressed : v.isRegressed = true
    · simp [hregressed]
    · simp [hregressed]
  | _ => simp [alerts]

-- The regressions of a report, as the alerts of its outcomes.
theorem Report.map_regressions (r : Report) (commitUrl : String) :
    r.regressions.map (Alert.mk commitUrl) = r.outcomes.flatMap (·.status.alerts commitUrl) := by
  unfold regressions verdicts
  induction r.outcomes with
  | nil => rfl
  | cons o outcomes ih =>
    obtain ⟨benchmark, status⟩ := o
    rw [List.flatMap_cons, ← ih]
    cases status with
    | evaluated v outOfOrder =>
      show List.map _ (List.filter _ (v :: List.filterMap _ outcomes)) = _
      rw [Status.alerts]
      by_cases hregressed : v.isRegressed = true
      · rw [List.filter_cons_of_pos hregressed, if_pos hregressed]
        rfl
      · rw [List.filter_cons_of_neg hregressed, if_neg hregressed]
        rfl
    | _ => rfl

namespace Service

variable {s s' s'' : Service} {tool : String} {commit : Commit} {m : Measurement}
  {raised raised' : List Alert}

theorem judge_evaluated {key : SeriesKey} {outOfOrder outOfOrder' : Bool} {v : Analysis.Verdict}
    (h : (s.judge key commit outOfOrder).1 = .evaluated v outOfOrder') :
    v.About key commit.id := by
  unfold judge at h
  cases hseries : s.ledger.series key with
  | error e =>
    rw [hseries] at h
    exact nomatch h
  | ok series =>
    simp only [hseries] at h
    cases hverdict : Analysis.assess s.settings series commit.id with
    | error e =>
      rw [hverdict] at h
      exact nomatch h
    | ok verdict =>
      rw [hverdict] at h
      obtain ⟨rfl, -⟩ := Status.evaluated.inj h
      obtain ⟨candidate, hmem, -, habout⟩ := Analysis.exists_about_of_assess hverdict
      rwa [Ledger.key_of_mem_series hseries hmem] at habout

/-- A measurement is judged only when its commit is new to its series. -/
theorem statusOf_evaluated {v : Analysis.Verdict} {outOfOrder : Bool}
    (h : s.statusOf tool commit m = .evaluated v outOfOrder) :
    v.About ⟨tool, m.name⟩ commit.id ∧ m.Proper tool commit.id ∧
      s.ledger.hasRecord ⟨tool, m.name⟩ commit.id = false := by
  have hproper : m.Proper tool commit.id := proper_of_isStored (by rw [h]; rfl)
  rw [statusOf_of_proper hproper] at h
  cases hreceive : s.ledger.receive m with
  | error e =>
    rw [hreceive] at h
    have hstored := isStored_refusal e
    rw [show refusal e = _ from h] at hstored
    exact absurd hstored Bool.noConfusion
  | ok receipt =>
    rw [hreceive] at h
    refine ⟨judge_evaluated h, hproper, ?_⟩
    -- a commit that the series has already would have been refused
    by_contra hrecord
    rw [← hproper.key, ← hproper.commitId, Bool.not_eq_false] at hrecord
    have hconnected := (Ledger.receive_eq_ok hreceive).2
    rw [Ledger.receive_of_hasRecord hproper.valid hconnected hrecord] at hreceive
    exact absurd hreceive Fallible.error_ne_ok

theorem hasRecord_taking {ms : List Measurement} (hm : m ∈ ms) (hproper : m.Proper tool commit.id)
    (hstored : (s.statusOf tool commit m).isStored = true) :
    (s.taking tool commit ms).ledger.hasRecord ⟨tool, m.name⟩ commit.id = true := by
  have hmem : m ∈ s.storedOf tool commit ms := List.mem_filter.2 ⟨hm, hstored⟩
  show (s.ledger.putAll (s.storedOf tool commit ms)).hasRecord _ _ = true
  rw [Ledger.hasRecord_putAll, Bool.or_eq_true]
  right
  rw [List.any_eq_true]
  exact ⟨m, List.mem_filter.2 ⟨hmem, decide_eq_true hproper.key⟩, beq_iff_eq.2 hproper.commitId⟩

/-- From `s` to `s'` those alerts were raised, each about a commit that was then new to its series
and is in it now. -/
structure Raises (s s' : Service) (raised : List Alert) : Prop where
  alerts : s'.alerts = s.alerts ++ raised
  grows : s.ledger.GrowsInto s'.ledger
  fresh : ∀ a ∈ raised, s.ledger.hasRecord a.subject.1 a.subject.2 = false
  recorded : ∀ a ∈ raised, s'.ledger.hasRecord a.subject.1 a.subject.2 = true
  distinct : (raised.map Alert.subject).Nodup

namespace Raises

theorem nil (s : Service) : s.Raises s [] where
  alerts := (List.append_nil s.alerts).symm
  grows := Ledger.GrowsInto.refl s.ledger
  fresh := by simp
  recorded := by simp
  distinct := List.nodup_nil

theorem append (h : s.Raises s' raised) (h' : s'.Raises s'' raised') :
    s.Raises s'' (raised ++ raised') where
  alerts := by rw [h'.alerts, h.alerts, List.append_assoc]
  grows := h.grows.trans h'.grows
  fresh := by
    rw [List.forall_mem_append]
    refine ⟨h.fresh, fun a ha => ?_⟩
    by_contra hrecord
    rw [Bool.not_eq_false] at hrecord
    have hgrown := h.grows.hasRecord hrecord
    rw [h'.fresh a ha] at hgrown
    contradiction
  recorded := by
    rw [List.forall_mem_append]
    exact ⟨fun a ha => h'.grows.hasRecord (h.recorded a ha), h'.recorded⟩
  distinct := by
    rw [List.map_append, List.nodup_append]
    refine ⟨h.distinct, h'.distinct, ?_⟩
    -- what an alert of before is about is in its series by now
    rintro _ hsubject _ hsubject' rfl
    obtain ⟨a, ha, ha'⟩ := List.mem_map.1 hsubject
    obtain ⟨b, hb, hb'⟩ := List.mem_map.1 hsubject'
    have hrecorded := h.recorded a ha
    rw [ha', ← hb', h'.fresh b hb] at hrecorded
    contradiction

end Raises

theorem raises_taking {ms : List Measurement} (hnames : (ms.map (·.name)).Nodup) (s : Service)
    (tool : String) (commit : Commit) :
    s.Raises (s.taking tool commit ms) (s.alertsOf tool commit ms) := by
  -- each alert is about a measurement that was judged
  have hjudged : ∀ a ∈ s.alertsOf tool commit ms, ∃ m ∈ ms,
      a.subject = (⟨tool, m.name⟩, commit.id) ∧ m.Proper tool commit.id ∧
      (s.statusOf tool commit m).isStored = true ∧
      s.ledger.hasRecord ⟨tool, m.name⟩ commit.id = false := by
    intro a ha
    obtain ⟨m, hm, ha⟩ := List.mem_flatMap.1 ha
    obtain ⟨v, outOfOrder, hstatus, -, rfl⟩ := Status.mem_alerts.1 ha
    obtain ⟨habout, hproper, hfresh⟩ := statusOf_evaluated hstatus
    refine ⟨m, hm, ?_, hproper, by rw [hstatus]; rfl, hfresh⟩
    rw [Alert.subject, habout.tool, habout.benchmark, habout.commitId]
  constructor
  · rfl
  · exact ⟨s.storedOf tool commit ms, rfl⟩
  · intro a ha
    obtain ⟨m, -, hsubject, -, -, hfresh⟩ := hjudged a ha
    rw [hsubject]
    exact hfresh
  · intro a ha
    obtain ⟨m, hm, hsubject, hproper, hstored, -⟩ := hjudged a ha
    rw [hsubject]
    exact hasRecord_taking hm hproper hstored
  · -- at most one alert for each measurement, and these have different names
    have hsublist : ((s.alertsOf tool commit ms).map Alert.subject).Sublist
        (ms.map fun m => ((⟨tool, m.name⟩ : SeriesKey), commit.id)) := by
      clear hnames hjudged
      induction ms with
      | nil => exact List.Sublist.refl _
      | cons m ms ih =>
        rw [alertsOf, List.flatMap_cons, List.map_append, List.map_cons, ← List.singleton_append]
        refine List.Sublist.append ?_ ih
        cases hstatus : s.statusOf tool commit m with
        | evaluated v outOfOrder =>
          obtain ⟨habout, -, -⟩ := statusOf_evaluated hstatus
          rw [Status.alerts]
          by_cases hregressed : v.isRegressed = true
          · rw [if_pos hregressed, List.map_singleton, Alert.subject, habout.tool,
              habout.benchmark, habout.commitId]
          · rw [if_neg hregressed]
            exact List.nil_sublist _
        | _ => exact List.nil_sublist _
    refine hsublist.nodup (List.Nodup.of_map (fun subject => subject.1.name) ?_)
    rw [List.map_map]
    exact hnames

-- Settled entries raise no alert, so those of a report are the alerts of its measurements.
theorem map_regressions_reportOf (s : Service) (tool : String) (commit : Commit)
    (entries : List (Except Rejection Measurement)) :
    (s.reportOf tool commit entries).regressions.map (Alert.mk commit.url) =
      s.alertsOf tool commit (Slot.pendingOf [] entries) := by
  have hslots : ∀ slots : List Slot, (∀ o, .settled o ∈ slots → o.status.isStored = false) →
      (slots.map (Slot.outcome (s.outcomeOf tool commit))).flatMap
        (·.status.alerts commit.url) = s.alertsOf tool commit (slots.filterMap Slot.pending?) := by
    intro slots hsettled
    induction slots with
    | nil => rfl
    | cons slot slots ih =>
      have hrest := ih fun o ho => hsettled o (List.mem_cons_of_mem slot ho)
      rw [List.map_cons, List.flatMap_cons, hrest]
      cases slot with
      | settled o =>
        have hnone := Status.alerts_of_not_stored (hsettled o List.mem_cons_self) commit.url
        rw [Slot.outcome, hnone]
        rfl
      | pending m => rfl
  rw [Report.map_regressions]
  exact hslots _ fun o ho => Slot.not_stored_of_settled ho

theorem about_of_mem_reportOf {entries : List (Except Rejection Measurement)} {o : Outcome}
    (ho : o ∈ (s.reportOf tool commit entries).outcomes) {v : Analysis.Verdict} {outOfOrder : Bool}
    (hstatus : o.status = .evaluated v outOfOrder) : v.About ⟨tool, o.benchmark⟩ commit.id := by
  obtain ⟨slot, hslot, rfl⟩ := List.mem_map.1 ho
  cases slot with
  | settled o =>
    have hstored := Slot.not_stored_of_settled hslot
    rw [Slot.outcome] at hstatus
    rw [hstatus] at hstored
    exact nomatch hstored
  | pending m => exact (statusOf_evaluated hstatus).1

/-- The alerts of some reports: one for each regression, with the address of the commit. -/
def alertsOfReports (reports : List (Commit × Report)) : List Alert :=
  reports.flatMap fun (commit, report) => report.regressions.map (Alert.mk commit.url)

theorem raises_ingestEntries (s : Service) (tool : String) (commit : Commit)
    (entries : List (Except Rejection Measurement)) :
    s.Raises (s.ingestEntries tool commit entries).2
      ((s.ingestEntries tool commit entries).1.regressions.map (Alert.mk commit.url)) := by
  have htaking := raises_taking (Slot.nodup_pendingOf [] entries).1 s tool commit
  rw [ingestEntries_eq]
  dsimp only
  rw [map_regressions_reportOf]
  exact ⟨htaking.alerts, htaking.grows, htaking.fresh, htaking.recorded, htaking.distinct⟩

theorem raises_serve (s : Service) (requests : List Request) :
    s.Raises (s.serve requests).2 (alertsOfReports (s.serve requests).1) := by
  induction requests generalizing s with
  | nil => exact .nil s
  | cons r requests ih =>
    cases hheader : r.validateHeader with
    | error e =>
      rw [serve_cons_error hheader]
      exact ih s
    | ok _ =>
      rw [serve_cons_ok hheader]
      exact (s.raises_ingestEntries r.tool r.commit r.entries).append (ih _)

-- Every verdict of a report is about the entry that it stands at.
theorem about_of_mem_serve {requests : List Request} {report : Report}
    (h : (commit, report) ∈ (s.serve requests).1) {o : Outcome} (ho : o ∈ report.outcomes)
    {v : Analysis.Verdict} {outOfOrder : Bool} (hstatus : o.status = .evaluated v outOfOrder) :
    v.About ⟨report.tool, o.benchmark⟩ commit.id := by
  induction requests generalizing s with
  | nil => exact absurd h List.not_mem_nil
  | cons r requests ih =>
    cases hheader : r.validateHeader with
    | error e =>
      rw [serve_cons_error hheader] at h
      exact ih h
    | ok _ =>
      rw [serve_cons_ok hheader] at h
      rcases List.mem_cons.1 h with heq | h
      · rw [ingestEntries_eq] at heq
        obtain ⟨rfl, rfl⟩ := Prod.mk.inj heq
        exact about_of_mem_reportOf ho hstatus
      · exact ih h

/-- The alerts that come of some requests are the regressions of the reports, each with the address
of the commit in the header.  No two of them are about one commit of one benchmark, and none is
raised where the history was too short to flag anything.  Every verdict of a report is about the
entry that it stands at. -/
theorem alerts_serve (s : Service) (requests : List Request) :
    let reports := (s.serve requests).1
    (s.serve requests).2.alerts = s.alerts ++ alertsOfReports reports ∧
      ((alertsOfReports reports).map Alert.subject).Nodup ∧
      (∀ a ∈ alertsOfReports reports, a.verdict.insufficientHistory = false) ∧
      ∀ commit report, (commit, report) ∈ reports → ∀ o ∈ report.outcomes,
        ∀ v outOfOrder, o.status = .evaluated v outOfOrder →
          v.About ⟨report.tool, o.benchmark⟩ commit.id := by
  have hraises := s.raises_serve requests
  refine ⟨hraises.alerts, hraises.distinct, ?_, fun _ _ h _ ho _ _ => about_of_mem_serve h ho⟩
  intro a ha
  obtain ⟨⟨commit, report⟩, hreport, ha⟩ := List.mem_flatMap.1 ha
  dsimp only at ha
  rw [Report.map_regressions] at ha
  obtain ⟨o, ho, ha⟩ := List.mem_flatMap.1 ha
  obtain ⟨v, outOfOrder, hstatus, hregressed, rfl⟩ := Status.mem_alerts.1 ha
  exact (about_of_mem_serve hreport ho hstatus).not_insufficient hregressed

end Service

end BenchLedger
