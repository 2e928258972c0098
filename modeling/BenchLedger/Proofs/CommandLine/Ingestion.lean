import BenchLedger.CommandLine.Execution
import BenchLedger.Proofs.Dashboard.Restating
import BenchLedger.Proofs.Ingest.Totals
import BenchLedger.Proofs.Ledger.ArrivalOrder

/-!
# Ingesting a file of runs

The command takes the runs of a file one by one and fails at the first with an invalid header.  What
was stored of the runs before it stays, and the reports on them are lost: when these runs are
ingested again, nothing of them is stored and none of their regressions is reported.
-/

namespace BenchLedger

namespace Ledger

variable {kind : Kind} {l l' : Ledger}

/-- Every series of the ledger can be read. -/
def Readable (l : Ledger) : Prop :=
  ∀ key, ∃ series, l.series key = .ok series

-- What is put into a ledger shows in the number of its records.
theorem eq_nil_of_holdings_putAll {ms : List Measurement}
    (h : ∀ tool, (l.putAll ms).holdings tool = l.holdings tool) : ms = [] := by
  cases ms with
  | nil => rfl
  | cons m ms =>
    have htool := h m.tool
    rw [holdings_putAll, List.countP_cons_of_pos (by simp)] at htool
    omega

theorem SameAnswers.holdings_eq (h : SameAnswers l l') (hreachable : Reachable kind l)
    (hreachable' : Reachable kind l') (hread : l.Readable) (tool : String) :
    l'.holdings tool = l.holdings tool := by
  obtain ⟨log, hlog⟩ := hreachable.exists_log
  obtain ⟨log', hlog'⟩ := hreachable'.exists_log
  obtain ⟨names, hnames, -⟩ := hlog.holds.names tool
  choose series hseries using hread
  have hcount := hlog.holds.holdings_eq_length hnames fun name _ => hseries ⟨tool, name⟩
  have hcount' := hlog'.holds.holdings_eq_length ((h.names tool).symm.trans hnames)
    fun name _ => (h.series ⟨tool, name⟩).symm.trans (hseries ⟨tool, name⟩)
  rw [hcount, hcount']

end Ledger

namespace Service

variable {s s' : Service} {run : Run} {report : Report}

-- Runs whose commits a ledger reads back leave no series that cannot be read.
theorem readable_afterRuns {kind : Ledger.Kind} (hempty : s.ledger = kind.empty) {runs : List Run}
    (hread : ∀ r ∈ runs, kind.ReadsCommit r.commit) :
    (runs.foldl afterRun s).ledger.Readable := by
  intro key
  have hstart : Ledger.Holds kind s.ledger [] := hempty ▸ .empty kind
  obtain ⟨added, hadded, hholds⟩ := holds_afterRuns hstart runs
  rw [List.nil_append] at hholds
  obtain ⟨series, hseries, -⟩ := hholds.series_of_kept fun m hm (_ : m.key = key) => by
    obtain ⟨e, he, hem⟩ := exists_reports_of_mem hadded hm
    exact Ledger.Kind.not_loses (hem.commit ▸ hread e.1 (mem_of_mem_storedEntries he))
      hem.recordedAt
  exact ⟨series, hseries⟩

-- The totals are counted along and never read.
theorem statusOf_totals (s : Service) (totals : List Totals) :
    { s with totals }.statusOf = s.statusOf := by
  funext tool commit m
  exact statusOf_congr rfl (Ledger.SameSeries.refl ⟨tool, m.name⟩ s.ledger)

theorem ingestRun_eq_error {e : InvalidRun} :
    s.ingestRun run = .error e ↔ run.validateHeader = .error e.cause := by
  obtain ⟨cause⟩ := e
  unfold ingestRun
  cases run.validateHeader with
  | error e => simp
  | ok _ => simp

theorem ingestEntries_totals (s : Service) (totals : List Totals) (tool : String) (commit : Commit)
    (entries : List (Except Rejection Measurement)) :
    ∃ totals', { s with totals }.ingestEntries tool commit entries =
      ((s.ingestEntries tool commit entries).1,
        { (s.ingestEntries tool commit entries).2 with totals := totals' }) := by
  have houtcome : { s with totals }.outcomeOf tool commit = s.outcomeOf tool commit := by
    funext m
    rw [outcomeOf, outcomeOf, statusOf_totals]
  have hreport : { s with totals }.reportOf tool commit entries =
      s.reportOf tool commit entries := by
    rw [reportOf, reportOf, houtcome]
  have htaking : ∀ ms, { s with totals }.taking tool commit ms =
      { s.taking tool commit ms with totals } := by
    intro ms
    simp only [taking, storedOf, alertsOf, statusOf_totals]
  rw [ingestEntries_eq, ingestEntries_eq, hreport, htaking]
  exact ⟨_, rfl⟩

theorem ingestRun_totals (h : s.ingestRun run = .ok (report, s')) (totals : List Totals) :
    ∃ totals', { s with totals }.ingestRun run = .ok (report, { s' with totals := totals' }) := by
  obtain ⟨hheader, hentries⟩ := ingestRun_eq_ok.1 h
  obtain ⟨totals', htotals⟩ := s.ingestEntries_totals totals run.tool run.commit run.entries
  rw [hentries] at htotals
  exact ⟨totals', ingestRun_eq_ok.2 ⟨hheader, htotals⟩⟩

/-- A run that was ingested before changes no more than the totals. -/
theorem ingestRun_repeats {t : Service} (h : s.ingestRun run = .ok (report, s'))
    (hgrows : s'.ledger.GrowsInto t.ledger) :
    ∃ again totals, t.ingestRun run = .ok (again, { t with totals }) ∧ report.Repeats again := by
  obtain ⟨hheader, hentries⟩ := ingestRun_eq_ok.1 h
  have hgrows' : (s.ingestEntries run.tool run.commit run.entries).2.ledger.GrowsInto t.ledger := by
    rwa [hentries]
  obtain ⟨hrepeats, hledger, halerts⟩ := ingestEntries_repeats hgrows'
  rw [hentries] at hrepeats
  generalize hagain : t.ingestEntries run.tool run.commit run.entries = again at *
  have hsettings : again.2.settings = t.settings := by
    rw [← hagain, ingestEntries_eq]
    rfl
  refine ⟨again.1, again.2.totals, ingestRun_eq_ok.2 ⟨hheader, ?_⟩, hrepeats⟩
  rw [hagain, ← hledger, ← halerts, ← hsettings]

/-- The ledger takes in as many measurements as the report on the run counts as stored. -/
theorem exists_putAll_ingestRun (h : s.ingestRun run = .ok (report, s')) :
    ∃ ms, s'.ledger = s.ledger.putAll ms ∧ ms.length = report.tally.stored := by
  obtain ⟨-, hentries⟩ := ingestRun_eq_ok.1 h
  rw [ingestEntries_eq] at hentries
  obtain ⟨rfl, rfl⟩ := Prod.mk.inj hentries
  refine ⟨s.storedOf run.tool run.commit (Slot.pendingOf [] run.entries), rfl, ?_⟩
  rw [Report.stored_tally, isStored_reportOf]

end Service

namespace Report

-- A regression is one of a measurement that was stored.
theorem regressions_of_not_stored {r : Report}
    (h : ∀ o ∈ r.outcomes, o.status.isStored = false) : r.regressions = [] := by
  have hverdicts : r.verdicts = [] := by
    refine List.filterMap_eq_nil_iff.2 fun o ho => ?_
    have hstatus := h o ho
    cases hcases : o.status with
    | evaluated =>
      rw [hcases] at hstatus
      exact absurd hstatus Bool.noConfusion
    | _ => rfl
  rw [regressions, hverdicts]
  rfl

theorem regressions_of_stored_eq_zero {r : Report} (h : r.tally.stored = 0) :
    r.regressions = [] := by
  rw [stored_tally, List.countP_eq_zero] at h
  exact regressions_of_not_stored fun o ho => Bool.eq_false_iff.2 (h o ho)

theorem Repeats.regressions {first second : Report} (h : first.Repeats second) :
    second.regressions = [] := by
  refine regressions_of_not_stored ?_
  obtain ⟨-, -, houtcomes⟩ := h
  generalize first.outcomes = before, second.outcomes = after at houtcomes
  induction houtcomes with
  | nil => exact fun _ => nofun
  | cons hrepeats _ ih => exact List.forall_mem_cons.2 ⟨hrepeats.status.notStored, ih⟩

end Report

namespace CommandLine

variable {s s' : Service} {run : Run} {runs : List Run} {report : Report} {reports : List Report}
  {e : InvalidRun}

theorem ingestRuns_nil_eq_ok : ingestRuns s [] = (.ok reports, s') ↔ reports = [] ∧ s' = s := by
  simp [ingestRuns, eq_comm]

theorem ingestRuns_cons_ok (h : s.ingestRun run = .ok (report, s')) (runs : List Run) :
    ingestRuns s (run :: runs) =
      ((ingestRuns s' runs).1.map (report :: ·), (ingestRuns s' runs).2) := by
  rw [ingestRuns, h]

theorem ingestRuns_cons_error (h : s.ingestRun run = .error e) (runs : List Run) :
    ingestRuns s (run :: runs) = (.error e, s) := by
  rw [ingestRuns, h]

theorem ingestRuns_cons_eq_ok : ingestRuns s (run :: runs) = (.ok reports, s') ↔
    ∃ report t later, s.ingestRun run = .ok (report, t) ∧ ingestRuns t runs = (.ok later, s') ∧
      reports = report :: later := by
  cases h : s.ingestRun run with
  | error e =>
    rw [ingestRuns_cons_error h]
    simp
  | ok one =>
    obtain ⟨report, t⟩ := one
    rw [ingestRuns_cons_ok h]
    constructor
    · intro heq
      obtain ⟨hreports, rfl⟩ := Prod.mk.inj heq
      obtain ⟨later, hlater, rfl⟩ := Fallible.map_eq_ok.1 hreports
      exact ⟨report, t, later, rfl, Prod.ext hlater rfl, rfl⟩
    · rintro ⟨report', t', later, hone, hlater, rfl⟩
      obtain ⟨rfl, rfl⟩ := Prod.mk.inj (Except.ok.inj hone)
      rw [hlater]
      rfl

/-- What follows runs that were ingested is ingested into what they left. -/
theorem ingestRuns_append (h : ingestRuns s runs = (.ok reports, s')) (rest : List Run) :
    ingestRuns s (runs ++ rest) =
      ((ingestRuns s' rest).1.map (reports ++ ·), (ingestRuns s' rest).2) := by
  induction runs generalizing s reports with
  | nil =>
    obtain ⟨rfl, rfl⟩ := ingestRuns_nil_eq_ok.1 h
    cases hrest : (ingestRuns s' rest).1 <;> exact Prod.ext hrest rfl
  | cons run runs ih =>
    obtain ⟨report, t, later, hone, hlater, rfl⟩ := ingestRuns_cons_eq_ok.1 h
    rw [List.cons_append, ingestRuns_cons_ok hone, ih hlater]
    cases (ingestRuns s' rest).1 <;> rfl

/-- An ingestion fails at the first run with an invalid header. -/
theorem exists_of_ingestRuns_eq_error (h : ingestRuns s runs = (.error e, s')) :
    ∃ before run after reports, runs = before ++ run :: after ∧
      ingestRuns s before = (.ok reports, s') ∧ run.validateHeader = .error e.cause := by
  induction runs generalizing s with
  | nil => exact absurd (congrArg Prod.fst h) nofun
  | cons run runs ih =>
    cases hone : s.ingestRun run with
    | error e' =>
      rw [ingestRuns_cons_error hone] at h
      obtain ⟨herror, rfl⟩ := Prod.mk.inj h
      obtain rfl := Except.error.inj herror
      exact ⟨[], run, runs, [], rfl, rfl, Service.ingestRun_eq_error.1 hone⟩
    | ok one =>
      obtain ⟨report, t⟩ := one
      rw [ingestRuns_cons_ok hone] at h
      obtain ⟨herror, hafter⟩ := Prod.mk.inj h
      have hrest : ingestRuns t runs = (.error e, s') :=
        Prod.ext (Fallible.map_eq_error.1 herror) hafter
      obtain ⟨before, stop, after, reports, rfl, hbefore, hstop⟩ := ih hrest
      exact ⟨run :: before, stop, after, report :: reports, rfl,
        ingestRuns_cons_eq_ok.2 ⟨report, t, reports, hone, hbefore, rfl⟩, hstop⟩

theorem exists_ingestRuns_of_valid (hvalid : ∀ r ∈ runs, r.validateHeader = .ok ())
    (s : Service) : ∃ reports s', ingestRuns s runs = (.ok reports, s') := by
  induction runs generalizing s with
  | nil => exact ⟨[], s, rfl⟩
  | cons run runs ih =>
    obtain ⟨hheader, hvalid⟩ := List.forall_mem_cons.1 hvalid
    let one := s.ingestEntries run.tool run.commit run.entries
    have hone : s.ingestRun run = .ok one := Service.ingestRun_eq_ok.2 ⟨hheader, rfl⟩
    obtain ⟨later, s', hlater⟩ := ih hvalid one.2
    exact ⟨one.1 :: later, s', ingestRuns_cons_eq_ok.2 ⟨_, _, later, hone, hlater, rfl⟩⟩

theorem reachable_ingestRuns {kind : Ledger.Kind} (h : ingestRuns s runs = (.ok reports, s'))
    (hreachable : Ledger.Reachable kind s.ledger) : Ledger.Reachable kind s'.ledger := by
  induction runs generalizing s reports with
  | nil =>
    obtain ⟨-, rfl⟩ := ingestRuns_nil_eq_ok.1 h
    exact hreachable
  | cons run runs ih =>
    obtain ⟨report, t, later, hone, hlater, -⟩ := ingestRuns_cons_eq_ok.1 h
    exact ih hlater (hreachable.request (.run run) hone)

/-- The reports count nothing as stored. -/
def StoredNothing (reports : List Report) : Prop :=
  ∀ report ∈ reports, report.tally.stored = 0

theorem StoredNothing.regressions (h : StoredNothing reports) :
    reports.flatMap (·.regressions) = [] :=
  List.flatMap_eq_nil_iff.2 fun report hreport =>
    Report.regressions_of_stored_eq_zero (h report hreport)

/-- The ledger takes nothing in just if the reports count nothing as stored. -/
theorem exists_putAll_ingestRuns (h : ingestRuns s runs = (.ok reports, s')) :
    ∃ ms, s'.ledger = s.ledger.putAll ms ∧ (ms = [] ↔ StoredNothing reports) := by
  induction runs generalizing s reports with
  | nil =>
    obtain ⟨rfl, rfl⟩ := ingestRuns_nil_eq_ok.1 h
    exact ⟨[], rfl, iff_of_true rfl fun _ => nofun⟩
  | cons run runs ih =>
    obtain ⟨report, t, later, hone, hlater, rfl⟩ := ingestRuns_cons_eq_ok.1 h
    obtain ⟨ms, hledger, hstored⟩ := Service.exists_putAll_ingestRun hone
    obtain ⟨ms', hledger', hstored'⟩ := ih hlater
    refine ⟨ms ++ ms', by rw [hledger', hledger, Ledger.putAll_append], ?_⟩
    rw [List.append_eq_nil_iff, hstored', ← List.length_eq_zero_iff, hstored, StoredNothing,
      StoredNothing, List.forall_mem_cons]

theorem ledger_ingestRuns_eq_iff (h : ingestRuns s runs = (.ok reports, s')) :
    s'.ledger = s.ledger ↔ StoredNothing reports := by
  obtain ⟨ms, hledger, hstored⟩ := exists_putAll_ingestRuns h
  rw [← hstored]
  constructor
  · intro heq
    refine Ledger.eq_nil_of_holdings_putAll (l := s.ledger) fun tool => ?_
    rw [← hledger, heq]
  · rintro rfl
    exact hledger

theorem sameAnswers_ingestRuns_iff {kind : Ledger.Kind} (h : ingestRuns s runs = (.ok reports, s'))
    (hreachable : Ledger.Reachable kind s.ledger) (hread : s.ledger.Readable) :
    s.ledger.SameAnswers s'.ledger ↔ StoredNothing reports := by
  constructor
  · intro hanswers
    obtain ⟨ms, hledger, hstored⟩ := exists_putAll_ingestRuns h
    rw [← hstored]
    refine Ledger.eq_nil_of_holdings_putAll (l := s.ledger) fun tool => ?_
    rw [← hledger]
    exact hanswers.holdings_eq hreachable (reachable_ingestRuns h hreachable) hread tool
  · intro hnothing
    rw [(ledger_ingestRuns_eq_iff h).2 hnothing]
    exact .of_reads (fun _ => rfl) (fun _ => rfl) rfl fun _ _ => rfl

theorem ingestRuns_totals (h : ingestRuns s runs = (.ok reports, s')) (totals : List Totals) :
    ∃ totals', ingestRuns { s with totals } runs =
      (.ok reports, { s' with totals := totals' }) := by
  induction runs generalizing s reports totals with
  | nil =>
    obtain ⟨rfl, rfl⟩ := ingestRuns_nil_eq_ok.1 h
    exact ⟨totals, rfl⟩
  | cons run runs ih =>
    obtain ⟨report, t, later, hone, hlater, rfl⟩ := ingestRuns_cons_eq_ok.1 h
    obtain ⟨totals₁, hone'⟩ := Service.ingestRun_totals hone totals
    obtain ⟨totals₂, hlater'⟩ := ih hlater totals₁
    exact ⟨totals₂, ingestRuns_cons_eq_ok.2 ⟨report, _, later, hone', hlater', rfl⟩⟩

/-- Runs that were ingested before change no more than the totals. -/
theorem ingestRuns_repeats {t : Service} (h : ingestRuns s runs = (.ok reports, s'))
    (hgrows : s'.ledger.GrowsInto t.ledger) :
    ∃ again totals, ingestRuns t runs = (.ok again, { t with totals }) ∧
      List.Forall₂ Report.Repeats reports again := by
  induction runs generalizing s t reports with
  | nil =>
    obtain ⟨rfl, -⟩ := ingestRuns_nil_eq_ok.1 h
    exact ⟨[], t.totals, rfl, .nil⟩
  | cons run runs ih =>
    obtain ⟨report, u, later, hone, hlater, rfl⟩ := ingestRuns_cons_eq_ok.1 h
    obtain ⟨ms, hledger, -⟩ := exists_putAll_ingestRuns hlater
    have hgrows' : u.ledger.GrowsInto t.ledger := .trans ⟨ms, hledger⟩ hgrows
    obtain ⟨again, totals, hagain, hrepeats⟩ := Service.ingestRun_repeats hone hgrows'
    -- the run left the ledger as it was, so the rest meets what it has grown into as well
    obtain ⟨rest, totals', hrest, hrepeats'⟩ := ih (t := { t with totals }) hlater hgrows
    exact ⟨again :: rest, totals', ingestRuns_cons_eq_ok.2 ⟨again, _, rest, hagain, hrest, rfl⟩,
      .cons hrepeats hrepeats'⟩

theorem regressions_of_repeats {first second : List Report}
    (h : List.Forall₂ Report.Repeats first second) : second.flatMap (·.regressions) = [] := by
  induction h with
  | nil => rfl
  | cons hone _ ih => rw [List.flatMap_cons, hone.regressions, ih, List.append_nil]

/-- How an ingestion ends that made the reports. -/
def endingOf (format : OutputFormat) (failOnRegression : Bool) (reports : List Report) :
    Ending where
  out := reportsText format reports
  err := totalsText reports
  failsOnRegression := reports.any (·.hasRegressions) && failOnRegression

section Commands

variable {w w' : Workspace} {file : String} {failOnRegression : Bool} {format : OutputFormat}

theorem run_ingest_of_ingestRuns (hread : readRuns w file = .ok runs)
    (hruns : ingestRuns s runs = (.ok reports, s')) :
    (Command.ingest file failOnRegression format none).run w s =
      (.ok (endingOf format failOnRegression reports), w, s') := by
  show runIngest w s file failOnRegression format none = _
  rw [runIngest, hread]
  dsimp only
  rw [hruns]
  rfl

theorem readRuns_ne_invalidRun : readRuns w file ≠ .error (.invalidRun e) := by
  unfold readRuns
  cases w.read file with
  | error cause => exact fun h => nomatch Except.error.inj h
  | ok text =>
    dsimp only
    cases Run.readList text with
    | error failure => exact fun h => nomatch Except.error.inj h
    | ok runs => exact nofun

theorem emit_ne_invalidRun {text : String} {output : Option String} :
    emit w text output ≠ .error (.invalidRun e) := by
  unfold emit
  cases output with
  | none => exact nofun
  | some file =>
    dsimp only [putText]
    cases w.write file text with
    | error cause => exact fun h => nomatch Except.error.inj h
    | ok w' => exact nofun

/-- The failure of an ingestion that names an invalid run is one of the runs in the file. -/
theorem run_ingest_eq_invalidRun {output : Option String} :
    (Command.ingest file failOnRegression format output).run w s =
        (.error (.invalidRun e), w', s') ↔
      w' = w ∧ ∃ runs, readRuns w file = .ok runs ∧ ingestRuns s runs = (.error e, s') := by
  show runIngest w s file failOnRegression format output = _ ↔ _
  unfold runIngest
  cases hread : readRuns w file with
  | error cause =>
    have hcause : cause ≠ .invalidRun e := fun heq => readRuns_ne_invalidRun (heq ▸ hread)
    simp [hcause]
  | ok runs =>
    dsimp only
    rcases hruns : ingestRuns s runs with ⟨cause | reports, t⟩
    · simp [hruns, eq_comm, and_left_comm]
    · cases hemit : emit w (reportsText format reports) output with
      | error cause =>
        have hcause : cause ≠ .invalidRun e := fun heq => emit_ne_invalidRun (heq ▸ hemit)
        simp [hruns, hemit, hcause]
      | ok emitted => simp [hruns, hemit]

/-- A corrected file, which begins with the runs before the invalid one, is ingested in the end as
it would have been in the first place, but for the reports on those runs: nothing is stored of them
again.  All regressions are reported just if there were none in the reports that were lost. -/
def Retries (s s' : Service) (before : List Run) (lost : List Report) : Prop :=
  ∀ (w : Workspace) (file : String) (failOnRegression : Bool) (format : OutputFormat)
    (rest : List Run), readRuns w file = .ok (before ++ rest) →
    (∀ r ∈ rest, r.validateHeader = .ok ()) →
    ∃ again later t totals,
      (Command.ingest file failOnRegression format none).run w s =
        (.ok (endingOf format failOnRegression (lost ++ later)), w, t) ∧
      (Command.ingest file failOnRegression format none).run w s' =
        (.ok (endingOf format failOnRegression (again ++ later)), w, { t with totals }) ∧
      List.Forall₂ Report.Repeats lost again ∧
      ((again ++ later).flatMap (·.regressions) = (lost ++ later).flatMap (·.regressions) ↔
        lost.flatMap (·.regressions) = [])

theorem retries_of_ingestRuns {before : List Run} {lost : List Report}
    (h : ingestRuns s before = (.ok lost, s')) : Retries s s' before lost := by
  intro w file failOnRegression format rest hread hvalid
  obtain ⟨later, t, hlater⟩ := exists_ingestRuns_of_valid hvalid s'
  obtain ⟨again, totals, hagain, hrepeats⟩ :=
    ingestRuns_repeats h (Ledger.GrowsInto.refl s'.ledger)
  obtain ⟨totals', hlater'⟩ := ingestRuns_totals hlater totals
  have hfirst : ingestRuns s (before ++ rest) = (.ok (lost ++ later), t) := by
    rw [ingestRuns_append h, hlater]
    rfl
  have hsecond : ingestRuns s' (before ++ rest) =
      (.ok (again ++ later), { t with totals := totals' }) := by
    rw [ingestRuns_append hagain, hlater']
    rfl
  refine ⟨again, later, t, totals', run_ingest_of_ingestRuns hread hfirst,
    run_ingest_of_ingestRuns hread hsecond, hrepeats, ?_⟩
  rw [List.flatMap_append, List.flatMap_append, regressions_of_repeats hrepeats, List.nil_append,
    eq_comm, List.append_left_eq_self]

/-- An ingestion that fails on an invalid header has ingested the runs before it and drops the
reports on them.  The ledger and, if all its series can be read, its answers are as they were just
if nothing of those runs was stored; then they had no regressions that a corrected file would not
report. -/
theorem run_ingest_invalidRun {output : Option String}
    (hrun : (Command.ingest file failOnRegression format output).run w s =
      (.error (.invalidRun e), w', s')) :
    w' = w ∧ ∃ before r after lost,
      readRuns w file = .ok (before ++ r :: after) ∧ r.validateHeader = .error e.cause ∧
      ingestRuns s before = (.ok lost, s') ∧
      (s'.ledger = s.ledger ↔ StoredNothing lost) ∧
      (∀ kind, Ledger.Reachable kind s.ledger → s.ledger.Readable →
        (s.ledger.SameAnswers s'.ledger ↔ StoredNothing lost)) ∧
      (StoredNothing lost → lost.flatMap (·.regressions) = []) ∧
      Retries s s' before lost := by
  obtain ⟨rfl, runs, hread, hruns⟩ := run_ingest_eq_invalidRun.1 hrun
  obtain ⟨before, r, after, lost, rfl, hbefore, hheader⟩ := exists_of_ingestRuns_eq_error hruns
  exact ⟨rfl, before, r, after, lost, hread, hheader, hbefore, ledger_ingestRuns_eq_iff hbefore,
    fun _ => sameAnswers_ingestRuns_iff hbefore, StoredNothing.regressions,
    retries_of_ingestRuns hbefore⟩

end Commands

-- Two runs as arrays without their optional fields, the second without a tool.
def secondWithoutTool : String :=
  "[[\"cargo\",[\"c2\",[\"A\"],[\"C\"],\"1970-01-01T00:00:00Z\",\"t\",\"https://x.test\"],0," ++
    "[[\"x\",9,\"± 1\",\"ns/iter\"]]]," ++
  "[\"\",[\"c3\",[\"A\"],[\"C\"],\"1970-01-01T00:00:00Z\",\"t\",\"https://x.test\"],0,[]]]"

-- The first run is a regression, which stays stored and is not reported when it is ingested again.
theorem run_ingest_invalidRun_secondWithoutTool :
    let service : Service := { settings := { minHistory := 1 }, ledger := .durable {} }
    let s := service.afterRun (runAt "c1" 1)
    let s' := s.afterRun (runAt "c2" 9)
    let w : Workspace := { files := { entries := [(Path.ofText "runs.json", secondWithoutTool)] } }
    (Command.ingest "runs.json" true .markdown none).run w s =
        (.error (.invalidRun ⟨.emptyTool⟩), w, s') ∧
      ¬s.ledger.SameAnswers s'.ledger ∧ s'.alerts.length = 1 ∧
      (ingestRuns s' [runAt "c2" 9]).1.map (·.flatMap (·.regressions)) = .ok [] := by
  intro service s s' w
  let bad : Run := { runAt "c3" 1 with tool := "", benches := [] }
  have hread : readRuns w "runs.json" = .ok [runAt "c2" 9, bad] := by decide +kernel
  obtain ⟨hruns, hchanged, hreports⟩ :
      ingestRuns s [runAt "c2" 9, bad] = (.error ⟨.emptyTool⟩, s') ∧ s'.ledger ≠ s.ledger ∧
        s'.alerts.length = 1 ∧
        (ingestRuns s' [runAt "c2" 9]).1.map (·.flatMap (·.regressions)) = .ok [] := by
    decide +kernel
  have hrun : (Command.ingest "runs.json" true .markdown none).run w s =
      (.error (.invalidRun ⟨.emptyTool⟩), w, s') :=
    run_ingest_eq_invalidRun.2 ⟨rfl, _, hread, hruns⟩
  have hreads : ∀ r ∈ [runAt "c1" 1], Ledger.Kind.durable.ReadsCommit r.commit :=
    List.forall_mem_singleton.2 (Ledger.Kind.KeepsCommit.reads (by decide))
  have hreadable : s.ledger.Readable :=
    Service.readable_afterRuns (rfl : service.ledger = Ledger.Kind.durable.empty) hreads
  have hreachable : Ledger.Reachable .durable s.ledger := .afterRun (s := service) .empty _
  obtain ⟨-, before, r, after, lost, -, -, -, hledger, hanswers, -, -⟩ := run_ingest_invalidRun hrun
  refine ⟨hrun, fun hsame => hchanged (hledger.2 ?_), hreports⟩
  exact (hanswers .durable hreachable hreadable).1 hsame

end CommandLine

end BenchLedger
