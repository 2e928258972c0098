import BenchLedger.Proofs.Ingest.EntryPoints
import BenchLedger.Proofs.Ingest.Trends

/-!
# Bad data stays by itself

Runs with an invalid header and entries that are not accepted leave nothing behind in an import but
their own lines in its summary: an import without them ends with the same ledger and the same
alerts, and its summary lacks just those lines.
-/

namespace BenchLedger

/-- The list without the items at the places that are gone, where places count from `n`. -/
def dropFrom {α : Type} (gone : Nat → Bool) : Nat → List α → List α
  | _, [] => []
  | n, a :: as =>
    if gone n then dropFrom gone (n + 1) as else a :: dropFrom gone (n + 1) as

theorem dropFrom_map {α β : Type} (gone : Nat → Bool) (f : α → β) (n : Nat) (as : List α) :
    dropFrom gone n (as.map f) = (dropFrom gone n as).map f := by
  induction as generalizing n with
  | nil => rfl
  | cons a as ih =>
    rw [List.map_cons, dropFrom, dropFrom]
    by_cases hgone : gone n = true
    · rw [if_pos hgone, if_pos hgone, ih]
    · rw [if_neg hgone, if_neg hgone, ih, List.map_cons]

def Run.without (r : Run) (gone : Nat → Bool) : Run :=
  { r with benches := dropFrom gone 0 r.benches }

def Report.without (report : Report) (gone : Nat → Bool) : Report :=
  { report with outcomes := dropFrom gone 0 report.outcomes }

/-- What is taken out of a dashboard: runs, by their places in the whole of it, and entries, by the
place of their run and their own. -/
structure Removal where
  runs : Nat → Bool
  benches : Nat → Nat → Bool

namespace Removal

/-- What is left of runs, the first of which stands at place `n`. -/
def rest (g : Removal) : Nat → List (String × Run) → List (String × Run)
  | _, [] => []
  | n, (suite, run) :: runs =>
    if g.runs n then g.rest (n + 1) runs
    else (suite, run.without (g.benches n)) :: g.rest (n + 1) runs

def restOfSuites (g : Removal) : Nat → List (String × List Run) → List (String × List Run)
  | _, [] => []
  | n, (suite, runs) :: suites =>
    (suite, (g.rest n (runs.map (suite, ·))).map (·.2)) ::
      g.restOfSuites (n + runs.length) suites

/-- Only runs with an invalid header are taken out, and only entries that are not accepted. -/
structure Fits (g : Removal) (places : List ((String × Run) × Nat)) : Prop where
  run : ∀ place ∈ places, g.runs place.2 = true → ∃ e, place.1.2.validateHeader = .error e
  bench : ∀ place ∈ places, ∀ bench ∈ place.1.2.benches.zipIdx,
    g.benches place.2 bench.2 = true → ∃ e, place.1.2.measurement bench.1 = .error e

theorem rest_append (g : Removal) (n : Nat) (runs runs' : List (String × Run)) :
    g.rest n (runs ++ runs') = g.rest n runs ++ g.rest (n + runs.length) runs' := by
  induction runs generalizing n with
  | nil => rfl
  | cons entry runs ih =>
    have hplace : n + (entry :: runs).length = n + 1 + runs.length := by
      rw [List.length_cons]
      omega
    rw [List.cons_append, rest, rest, ih, hplace]
    by_cases hgone : g.runs n = true
    · rw [if_pos hgone, if_pos hgone]
    · rw [if_neg hgone, if_neg hgone, List.cons_append]

-- The runs that are left are of the suite that they were of.
theorem map_rest_of_suite (g : Removal) (n : Nat) (suite : String) (runs : List Run) :
    ((g.rest n (runs.map (suite, ·))).map (·.2)).map (suite, ·) =
      g.rest n (runs.map (suite, ·)) := by
  induction runs generalizing n with
  | nil => rfl
  | cons run runs ih =>
    rw [List.map_cons, rest]
    by_cases hgone : g.runs n = true
    · rw [if_pos hgone, ih]
    · rw [if_neg hgone, List.map_cons, List.map_cons, ih]

end Removal

def Dashboard.without (d : Dashboard) (g : Removal) : Dashboard :=
  { d with entries := g.restOfSuites 0 d.entries }

theorem Dashboard.runs_without (d : Dashboard) (g : Removal) :
    (d.without g).runs = g.rest 0 d.runs := by
  have hsuites : ∀ n, (g.restOfSuites n d.entries).flatMap (fun entry =>
      entry.2.map (entry.1, ·)) = g.rest n (d.entries.flatMap fun entry =>
        entry.2.map (entry.1, ·)) := by
    induction d.entries with
    | nil => exact fun _ => rfl
    | cons entry suites ih =>
      obtain ⟨suite, runs⟩ := entry
      intro n
      rw [Removal.restOfSuites, List.flatMap_cons, List.flatMap_cons, Removal.rest_append, ih,
        List.length_map]
      exact congrArg (· ++ _) (g.map_rest_of_suite n suite runs)
  exact hsuites 0

namespace Slot

-- An entry that was not accepted takes no name and records nothing.
theorem ofEntries_dropFrom {gone : Nat → Bool} {n : Nat}
    {entries : List (Except Rejection Measurement)}
    (h : ∀ place ∈ entries.zipIdx n, gone place.2 = true → ∃ e, place.1 = .error e)
    (seen : List String) :
    ofEntries seen (dropFrom gone n entries) = dropFrom gone n (ofEntries seen entries) ∧
      pendingOf seen (dropFrom gone n entries) = pendingOf seen entries := by
  induction entries generalizing n seen with
  | nil => exact ⟨rfl, rfl⟩
  | cons entry entries ih =>
    rw [List.zipIdx_cons] at h
    obtain ⟨hhere, hlater⟩ := List.forall_mem_cons.1 h
    obtain ⟨hslots, hpending⟩ := ih hlater (seenAfter seen entry)
    rw [ofEntries_cons, pendingOf_cons, dropFrom, dropFrom]
    by_cases hgone : gone n = true
    · obtain ⟨e, rfl⟩ := hhere hgone
      rw [if_pos hgone, if_pos hgone]
      exact ⟨hslots, hpending⟩
    · rw [if_neg hgone, if_neg hgone, ofEntries_cons, pendingOf_cons, hslots, hpending]
      exact ⟨rfl, rfl⟩

end Slot

theorem Run.entryName_entries (r : Run) : r.entries.map entryName = r.benches.map (·.name) := by
  unfold entries
  rw [List.map_map]
  apply List.map_congr_left
  intro b _
  show entryName ((r.measurement b).mapError (⟨b.name, ·⟩)) = b.name
  cases hb : r.measurement b with
  | error e => rfl
  | ok m => exact (reports_of_measurement hb).name

theorem Run.entries_without (r : Run) (gone : Nat → Bool) :
    (r.without gone).entries = dropFrom gone 0 r.entries :=
  (dropFrom_map gone _ 0 r.benches).symm

/-- Nothing but the totals tells the two services apart. -/
structure Service.SameState (s s' : Service) : Prop where
  settings : s.settings = s'.settings
  ledger : s.ledger = s'.ledger
  alerts : s.alerts = s'.alerts

namespace Service

variable {s s' : Service}

theorem SameState.statusOf (h : s.SameState s') (tool : String) (commit : Commit)
    (m : Measurement) : s.statusOf tool commit m = s'.statusOf tool commit m := by
  have hledger : Ledger.SameSeries ⟨tool, m.name⟩ s.ledger s'.ledger := by
    rw [h.ledger]
    exact Ledger.SameSeries.refl _ _
  exact statusOf_congr h.settings hledger

theorem SameState.taking (h : s.SameState s') (tool : String) (commit : Commit)
    (ms : List Measurement) : (s.taking tool commit ms).SameState (s'.taking tool commit ms) where
  settings := h.settings
  ledger := by simp only [Service.taking, storedOf, h.statusOf, h.ledger]
  alerts := by simp only [Service.taking, alertsOf, h.statusOf, h.alerts]

theorem reportOn_ingestEntries (s : Service) (r : Run) :
    ReportOn r (s.ingestEntries r.tool r.commit r.entries).1 := by
  rw [ingestEntries_eq]
  exact ⟨rfl, rfl, (s.benchmark_reportOf r.tool r.commit r.entries).trans r.entryName_entries⟩

/-- Entries that are not accepted leave only their outcomes. -/
theorem ingestEntries_without {r : Run} {gone : Nat → Bool}
    (h : ∀ bench ∈ r.benches.zipIdx, gone bench.2 = true → ∃ e, r.measurement bench.1 = .error e)
    (hsame : s.SameState s') :
    (s'.ingestEntries r.tool r.commit (r.without gone).entries).1 =
        (s.ingestEntries r.tool r.commit r.entries).1.without gone ∧
      (s.ingestEntries r.tool r.commit r.entries).2.SameState
        (s'.ingestEntries r.tool r.commit (r.without gone).entries).2 := by
  have hentries : ∀ place ∈ r.entries.zipIdx, gone place.2 = true → ∃ e, place.1 = .error e := by
    intro place hplace hgone
    rw [Run.entries, List.zipIdx_map] at hplace
    obtain ⟨bench, hbench, rfl⟩ := List.mem_map.1 hplace
    obtain ⟨e, he⟩ := h bench hbench hgone
    exact ⟨⟨bench.1.name, e⟩, congrArg (Except.mapError _) he⟩
  obtain ⟨hslots, hpending⟩ := Slot.ofEntries_dropFrom hentries []
  rw [ingestEntries_eq, ingestEntries_eq, Run.entries_without, hpending]
  constructor
  · have houtcome : s'.outcomeOf r.tool r.commit = s.outcomeOf r.tool r.commit := by
      funext m
      rw [outcomeOf, outcomeOf, hsame.statusOf]
    dsimp only
    rw [reportOf, hslots, houtcome, ← dropFrom_map]
    rfl
  · have htaking := hsame.taking r.tool r.commit (Slot.pendingOf [] r.entries)
    exact ⟨htaking.settings, htaking.ledger, htaking.alerts⟩

end Service

/-- The runs with a valid header, with their places. -/
def reported (places : List ((String × Run) × Nat)) : List ((String × Run) × Nat) :=
  places.filter fun place => place.1.2.validateHeader.isOk

/-- What an import says of a run with an invalid header. -/
def SkippedRun.of? : String × Run → Option SkippedRun
  | (suite, run) =>
    match run.validateHeader with
    | .error e => some ⟨suite, run.commit.id, InvalidRun.message ⟨e⟩⟩
    | .ok _ => none

/-- `whole` is the summary of an import of the runs, the first of which stands at place `n`, and
`rest` that of an import of what is left of them. -/
structure Removal.Splits (g : Removal) (n : Nat) (runs : List (String × Run))
    (whole rest : ImportSummary) : Prop where
  reportsOn : List.Forall₂ (fun place report => Service.ReportOn place.1.2 report)
    (reported (runs.zipIdx n)) whole.reports
  reports : rest.reports =
    List.zipWith (fun place report => report.without (g.benches place.2))
      (reported (runs.zipIdx n)) whole.reports
  skipped : whole.skipped = runs.filterMap SkippedRun.of?
  stillSkipped : rest.skipped = (dropFrom g.runs n runs).filterMap SkippedRun.of?

namespace Removal.Splits

variable {g : Removal} {n : Nat} {suite : String} {run : Run} {runs : List (String × Run)}
  {whole rest : ImportSummary}

theorem nil (g : Removal) (n : Nat) : g.Splits n [] {} {} :=
  ⟨.nil, rfl, rfl, rfl⟩

-- A run with an invalid header is skipped, unless it was taken out.
theorem cons_invalid {e : Invalid} (hheader : run.validateHeader = .error e)
    (h : g.Splits (n + 1) runs whole rest) :
    g.Splits n ((suite, run) :: runs)
      { whole with
        skipped := ⟨suite, run.commit.id, InvalidRun.message ⟨e⟩⟩ :: whole.skipped }
      (if g.runs n then rest
        else { rest with
          skipped := ⟨suite, run.commit.id, InvalidRun.message ⟨e⟩⟩ :: rest.skipped }) := by
  have hskipped : SkippedRun.of? (suite, run) =
      some ⟨suite, run.commit.id, InvalidRun.message ⟨e⟩⟩ := by
    rw [SkippedRun.of?, hheader]
  have hreported : reported (((suite, run) :: runs).zipIdx n) = reported (runs.zipIdx (n + 1)) := by
    have hnot : ¬run.validateHeader.isOk = true := by
      rw [hheader]
      exact nofun
    exact List.filter_cons_of_neg hnot
  constructor
  · rw [hreported]
    exact h.reportsOn
  · rw [hreported]
    by_cases hout : g.runs n = true
    · rw [if_pos hout]
      exact h.reports
    · rw [if_neg hout]
      exact h.reports
  · rw [List.filterMap_cons_some hskipped]
    exact congrArg (List.cons _) h.skipped
  · rw [dropFrom]
    by_cases hout : g.runs n = true
    · rw [if_pos hout, if_pos hout]
      exact h.stillSkipped
    · rw [if_neg hout, if_neg hout, List.filterMap_cons_some hskipped]
      exact congrArg (List.cons _) h.stillSkipped

-- A run with a valid header stays and has a report.
theorem cons_valid {report : Report} (hheader : run.validateHeader = .ok ())
    (hstays : ¬g.runs n = true) (hreport : Service.ReportOn run report)
    (h : g.Splits (n + 1) runs whole rest) :
    g.Splits n ((suite, run) :: runs)
      { whole with reports := report :: whole.reports }
      { rest with reports := report.without (g.benches n) :: rest.reports } := by
  have hskipped : SkippedRun.of? (suite, run) = none := by
    rw [SkippedRun.of?, hheader]
  have hreported : reported (((suite, run) :: runs).zipIdx n) =
      ((suite, run), n) :: reported (runs.zipIdx (n + 1)) := by
    have hok : run.validateHeader.isOk = true := by
      rw [hheader]
      rfl
    exact List.filter_cons_of_pos hok
  constructor
  · rw [hreported]
    exact .cons hreport h.reportsOn
  · rw [hreported]
    exact congrArg (List.cons _) h.reports
  · rw [List.filterMap_cons_none hskipped]
    exact h.skipped
  · rw [dropFrom, if_neg hstays, List.filterMap_cons_none hskipped]
    exact h.stillSkipped

end Removal.Splits

namespace Service

/-- What is taken out of the runs of an import leaves the rest of them as it is. -/
theorem importRuns_rest {g : Removal} {n : Nat} {runs : List (String × Run)} {s s' : Service}
    (h : g.Fits (runs.zipIdx n)) (hsame : s.SameState s') :
    (s.importRuns runs).2.SameState (s'.importRuns (g.rest n runs)).2 ∧
      g.Splits n runs (s.importRuns runs).1 (s'.importRuns (g.rest n runs)).1 := by
  induction runs generalizing n s s' with
  | nil => exact ⟨hsame, .nil g n⟩
  | cons entry runs ih =>
    obtain ⟨suite, run⟩ := entry
    rw [List.zipIdx_cons] at h
    obtain ⟨hrun, hruns⟩ := List.forall_mem_cons.1 h.run
    obtain ⟨hbench, hbenches⟩ := List.forall_mem_cons.1 h.bench
    have hlater : g.Fits (runs.zipIdx (n + 1)) := ⟨hruns, hbenches⟩
    cases hheader : run.validateHeader with
    | error e =>
      have hheader' : (run.without (g.benches n)).validateHeader = .error e := hheader
      obtain ⟨hstate, hsplits⟩ := ih hlater hsame
      have hcons := @Removal.Splits.cons_invalid g n suite run runs _ _ e hheader hsplits
      rw [importRuns_cons_error hheader, Removal.rest]
      by_cases hout : g.runs n = true
      · rw [if_pos hout] at hcons ⊢
        exact ⟨hstate, hcons⟩
      · rw [if_neg hout] at hcons ⊢
        rw [importRuns_cons_error hheader']
        exact ⟨hstate, hcons⟩
    | ok _ =>
      have hheader' : (run.without (g.benches n)).validateHeader = .ok () := hheader
      have hstays : ¬g.runs n = true := by
        intro hout
        obtain ⟨e, he⟩ := hrun hout
        exact nomatch hheader.symm.trans he
      obtain ⟨hreport, hafter⟩ := ingestEntries_without hbench hsame
      obtain ⟨hstate, hsplits⟩ := ih hlater hafter
      rw [importRuns_cons_ok hheader, Removal.rest, if_neg hstays, importRuns_cons_ok hheader']
      dsimp only
      refine ⟨hstate, ?_⟩
      have hrest : (s'.ingestEntries (run.without (g.benches n)).tool
          (run.without (g.benches n)).commit (run.without (g.benches n)).entries).1 =
            (s.ingestEntries run.tool run.commit run.entries).1.without (g.benches n) := hreport
      rw [hrest]
      exact hsplits.cons_valid hheader hstays (s.reportOn_ingestEntries run)

/-- Without its bad data a dashboard is imported into the same ledger, with the same alerts.  Its
reports lack just the outcomes of the entries that were taken out, and runs that were taken out had
a line among the skipped ones and no report. -/
theorem importDashboard_without {g : Removal} {d : Dashboard} (h : g.Fits d.runs.zipIdx)
    (s : Service) :
    let whole := s.importDashboard d
    let rest := s.importDashboard (d.without g)
    rest.2.ledger = whole.2.ledger ∧ rest.2.alerts = whole.2.alerts ∧
      g.Splits 0 d.runs whole.1 rest.1 := by
  obtain ⟨hstate, hsplits⟩ := importRuns_rest h ⟨rfl, rfl, rfl⟩
  rw [importDashboard, importDashboard, Dashboard.runs_without]
  exact ⟨hstate.ledger.symm, hstate.alerts.symm, hsplits⟩

end Service

/-- A run of no tool. -/
def Run.headless : Run where
  tool := ""
  commit := (Ledger.recordAt "c1").commit
  date := 0
  benches := [⟨"x", 1, "± 1", "ns/iter"⟩]

namespace Service

-- The run of no tool may go, and so may the entry that is not valid, though its name is used again.
theorem importDashboard_without_restated :
    let d : Dashboard :=
      ⟨0, "https://x.test", [(Dashboard.defaultSuite, [Run.headless, Run.restated])]⟩
    let g : Removal := ⟨fun i => i == 0, fun i j => i == 1 && j == 0⟩
    let s : Service := { ledger := .resident {} }
    g.Fits d.runs.zipIdx ∧
      (d.without g).runs.map (·.2.benches) = [[⟨"x", 5, "± 1", "ns/iter"⟩]] ∧
      (s.importDashboard (d.without g)).2.ledger = (s.importDashboard d).2.ledger := by
  intro d g s
  have hheader : Run.headless.validateHeader = .error .emptyTool := by decide +kernel
  have hvalue : Run.restated.measurement ⟨"x", -1, "± 1", "ns/iter"⟩ =
      .error (.negativeValue "x" (-1)) := by decide +kernel
  have hfits : g.Fits d.runs.zipIdx := by
    constructor
    · exact List.forall_mem_cons.2 ⟨fun _ => ⟨.emptyTool, hheader⟩,
        List.forall_mem_singleton.2 nofun⟩
    · have hentries : ∀ bench ∈ Run.restated.benches.zipIdx, g.benches 1 bench.2 = true →
          ∃ e, Run.restated.measurement bench.1 = .error e :=
        List.forall_mem_cons.2 ⟨fun _ => ⟨.negativeValue "x" (-1), hvalue⟩,
          List.forall_mem_singleton.2 nofun⟩
      exact List.forall_mem_cons.2 ⟨List.forall_mem_singleton.2 nofun,
        List.forall_mem_singleton.2 hentries⟩
  exact ⟨hfits, rfl, (importDashboard_without hfits s).1⟩

end Service

end BenchLedger
