import BenchLedger.Proofs.Dashboard.RoundTrip

/-!
# The commits of a document

A document shows all records of one tool and commit id under one commit, which is that of the record
whose name comes first, as the ledger keeps it.  Each record stands under the commit that it was
reported with just when the records of one tool and commit id agree on the commit and the ledger
keeps it as it came.
-/

namespace BenchLedger

/-- The run shows the measurement, and shows it under that commit. -/
structure Run.ShowsUnder (r : Run) (commit : Commit) (m : Measurement) : Prop where
  tool : r.tool = m.tool
  commit : r.commit = commit
  entry : .ofMeasurement m ∈ r.benches

/-- The measurement is the one of its group whose name comes first. -/
structure Measurement.Leads (first : Measurement) (ms : List Measurement) : Prop where
  mem : first ∈ ms
  least : ∀ m ∈ ms, m.group = first.group → first.name ≤ m.name

-- A run that was formed of a group has the commit of the measurement that leads it.
theorem exists_leads_of_group? {ms : List Measurement} {r : Run} {group : String × String}
    (h : group? ms group = some r)
    (hnames : (ms.filter (·.group = group)).Pairwise (·.name < ·.name)) :
    ∃ first : Measurement, first.Leads ms ∧ first.group = group ∧ first.commit = r.commit := by
  rw [group?_eq] at h
  split at h
  · exact nomatch h
  case h_2 first others hfilter =>
    obtain rfl := Option.some.inj h
    have hfirst : first ∈ ms.filter (·.group = group) := by
      rw [hfilter]
      exact List.mem_cons_self
    obtain ⟨hmem, hgroup⟩ := List.mem_filter.1 hfirst
    have hgroup : first.group = group := of_decide_eq_true hgroup
    refine ⟨first, ⟨hmem, fun m hm hsame => ?_⟩, hgroup, rfl⟩
    have hm : m ∈ ms.filter (·.group = group) :=
      List.mem_filter.2 ⟨hm, decide_eq_true (hsame.trans hgroup)⟩
    rw [hfilter] at hm hnames
    rcases List.mem_cons.1 hm with rfl | hm
    · exact le_refl _
    · exact le_of_lt ((List.pairwise_cons.1 hnames).1 m hm)

namespace Dashboard

variable {ms : List Measurement}
  (hnames : ∀ group, (ms.filter (·.group = group)).Pairwise (·.name < ·.name))
include hnames

/-- Each measurement is shown, under the commit of the one that leads its group. -/
theorem exists_showsUnder {m : Measurement} (hm : m ∈ ms) :
    ∃ first : Measurement, first.Leads ms ∧ first.group = m.group ∧
      ∃ r ∈ runsOf ms, r.ShowsUnder first.commit m := by
  obtain ⟨r, hr, hgroup⟩ := List.mem_map.1
    (((partition_runsOf hnames).mem_groups m.group).2 ⟨m, hm, rfl⟩)
  have hrun := group?_of_mem_runsOf hr
  obtain ⟨first, hleads, hfirst, hcommit⟩ := exists_leads_of_group? hrun (hnames r.group)
  refine ⟨first, hleads, hfirst.trans hgroup, r, hr, (Prod.mk.inj hgroup).1, hcommit.symm, ?_⟩
  rw [benches_of_group? hrun]
  exact List.mem_map_of_mem (List.mem_filter.2 ⟨hm, decide_eq_true hgroup.symm⟩)

/-- All measurements are shown under their own commits just when those of one group agree on it. -/
theorem showsUnder_own_iff :
    (∀ m ∈ ms, ∃ r ∈ runsOf ms, r.ShowsUnder m.commit m) ↔
      ∀ a ∈ ms, ∀ b ∈ ms, a.group = b.group → a.commit = b.commit := by
  constructor
  · intro hown a ha b hb hgroup
    obtain ⟨r, hr, hshowsA⟩ := hown a ha
    obtain ⟨r', hr', hshowsB⟩ := hown b hb
    have hgroups : ∀ {r : Run} {m : Measurement}, r.ShowsUnder m.commit m → r.group = m.group :=
      fun hshows => Prod.ext hshows.tool (congrArg Commit.id hshows.commit)
    -- there is only one run of the group
    have hsame : r.group = r'.group := (hgroups hshowsA).trans (hgroup.trans (hgroups hshowsB).symm)
    obtain rfl := List.inj_on_of_nodup_map (partition_runsOf hnames).groups hr hr' hsame
    exact hshowsA.commit.symm.trans hshowsB.commit
  · intro hagree m hm
    obtain ⟨first, hleads, hgroup, r, hr, hshows⟩ := exists_showsUnder hnames hm
    refine ⟨r, hr, ?_⟩
    rwa [hagree first hleads.mem m hm hgroup] at hshows

end Dashboard

namespace Ledger

variable {kind : Kind} {l : Ledger} {log : List Measurement}

/-- What a ledger of runs lists: what it keeps of its log, in each group in the order of the
names. -/
structure Lists (kind : Kind) (l : Ledger) (log ms : List Measurement) : Prop where
  records : Records kind l log
  perm : ms.Perm (log.map kind.keep)
  plain : ∀ m ∈ ms, m.Plain
  names : ∀ group, (ms.filter (·.group = group)).Pairwise (·.name < ·.name)
  measurements : l.measurements = .ok ms

theorem Records.exists_lists (h : Records kind l log) (hlog : ∀ m ∈ log, m.OfRun)
    (hread : ∀ m ∈ log, kind.ReadsCommit m.commit) : ∃ ms, Lists kind l log ms := by
  obtain ⟨ms, hms, hperm, hnames, -⟩ := h.toDashboard_of_kept fun m hm =>
    Kind.not_loses (hread m hm) (hlog m hm).plain.recordedAt
  refine ⟨ms, h, hperm, fun m hm => ?_, hnames, hms⟩
  obtain ⟨recorded, hrecorded, rfl⟩ := List.mem_map.1 (hperm.mem_iff.1 hm)
  exact (hlog recorded hrecorded).plain.keep kind

theorem Lists.toDashboard {ms : List Measurement} (h : Lists kind l log ms)
    (repoUrl suite : String) :
    l.toDashboard repoUrl suite = .ok (.ofMeasurements repoUrl suite ms) := by
  rw [Ledger.toDashboard, h.measurements]
  rfl

theorem Lists.forall_mem_iff {ms : List Measurement} (h : Lists kind l log ms)
    {P : Measurement → Prop} : (∀ m ∈ ms, P m) ↔ ∀ m ∈ log, P (kind.keep m) := by
  simp only [h.perm.mem_iff, List.forall_mem_map]

/-- A ledger of runs is exported if it can read their commits back, and shows each record under the
commit of that one of its group whose name comes first.  It shows all records under the commits that
they were reported with just when those of one tool and commit id were all reported with the same,
and the ledger keeps them all as they came. -/
theorem toDashboard_commits (h : OfRuns kind l) (repoUrl suite : String) :
    ∃ log, Holds kind l log ∧
      ((∃ m ∈ log, ¬kind.ReadsCommit m.commit) →
        l.toDashboard repoUrl suite = .error (.corrupt "commit metadata")) ∧
      ((∀ m ∈ log, kind.ReadsCommit m.commit) → ∃ d, l.toDashboard repoUrl suite = .ok d ∧
        (∀ m ∈ log, ∃ first : Measurement, first.Leads log ∧ first.group = m.group ∧
          ∃ run ∈ d.runs, run.2.ShowsUnder (kind.keep first).commit (kind.keep m)) ∧
        ((∀ m ∈ log, ∃ run ∈ d.runs, run.2.ShowsUnder m.commit (kind.keep m)) ↔
          (∀ m ∈ log, kind.KeepsCommit m.commit) ∧
            ∀ a ∈ log, ∀ b ∈ log, a.group = b.group → a.commit = b.commit)) := by
  obtain ⟨log, hlog, hruns⟩ := h.exists_log
  refine ⟨log, hlog.holds, ?_, fun hread => ?_⟩
  · rintro ⟨m, hm, hunread⟩
    obtain ⟨m', hm', what, hwhat, hfail⟩ :=
      hlog.holds.measurements_of_lost hm (Kind.loses_iff.2 (.inl hunread))
    rw [Ledger.toDashboard, hfail,
      Kind.loss?_of_onMillisecond (hruns m' hm').plain.recordedAt hwhat]
    rfl
  obtain ⟨ms, hms⟩ := hlog.exists_lists hruns hread
  refine ⟨_, hms.toDashboard repoUrl suite, ?_, ?_⟩
  · rw [Dashboard.runs_ofMeasurements]
    have hshown := hms.forall_mem_iff.1 fun m => Dashboard.exists_showsUnder hms.names (m := m)
    intro m hm
    obtain ⟨first, hleads, hgroup, r, hr, hshows⟩ := hshown m hm
    obtain ⟨first, hfirst, rfl⟩ := List.mem_map.1 (hms.perm.mem_iff.1 hleads.mem)
    have hleast := hms.forall_mem_iff.1 hleads.least
    simp only [Measurement.group_keep, Measurement.name_keep] at hleast hgroup
    exact ⟨first, ⟨hfirst, hleast⟩, hgroup, (suite, r), List.mem_map_of_mem hr, hshows⟩
  · have hown := Dashboard.showsUnder_own_iff hms.names
    simp only [hms.forall_mem_iff, Measurement.group_keep] at hown
    have hkept : (∀ m ∈ log, kind.KeepsCommit m.commit) →
        ∀ m ∈ log, (kind.keep m).commit = m.commit :=
      fun hkeeps m hm => Kind.commit_keep (hkeeps m hm)
    rw [Dashboard.runs_ofMeasurements]
    simp only [List.mem_map, exists_exists_and_eq_and]
    constructor
    · intro hshown
      -- a commit that is shown is one that was read back
      have hkeeps : ∀ m ∈ log, kind.KeepsCommit m.commit := by
        intro m hm
        obtain ⟨r, hr, hshows⟩ := hshown m hm
        rw [← hshows.commit]
        refine Dashboard.forall_commit_of_mem_runsOf hms.names ?_ r hr
        exact hms.forall_mem_iff.2 fun m hm => Kind.keepsCommit_keep (hread m hm)
      have hkept := hkept hkeeps
      refine ⟨hkeeps, fun a ha b hb hgroup => ?_⟩
      have hsame := hown.1 (fun m hm => by rw [hkept m hm]; exact hshown m hm) a ha b hb hgroup
      rwa [hkept a ha, hkept b hb] at hsame
    · rintro ⟨hkeeps, hagree⟩
      have hkept := hkept hkeeps
      have hshown := hown.2 fun a ha b hb hgroup => by
        rw [hkept a ha, hkept b hb]
        exact hagree a ha b hb hgroup
      intro m hm
      rw [← hkept m hm]
      exact hshown m hm

/-- A record of a benchmark at a commit that was reported with that message. -/
def recordSaying (name message : String) : Measurement :=
  { recordAt "c1" with commit := { (recordAt "c1").commit with message := some message }, name }

def runSaying (name message : String) : Run where
  tool := "cargo"
  commit := (recordSaying name message).commit
  date := 0
  benches := [⟨name, 1, "± 1", "ns/iter"⟩]

-- A commit that was reported with two messages is exported with one of them.
theorem toDashboard_commits_twoMessages :
    let s : Service := { ledger := Kind.resident.empty }
    let l := ((s.afterRun (runSaying "y" "first")).afterRun (runSaying "x" "second")).ledger
    ∃ log d, Holds .resident l log ∧ l.toDashboard "" "" = .ok d ∧
      ¬∀ m ∈ log, ∃ run ∈ d.runs, run.2.ShowsUnder m.commit m := by
  intro s l
  have hl : OfRuns .resident l := OfRuns.afterRun (OfRuns.afterRun (s := s) .empty _) _
  have hlist : l.measurements = .ok [recordSaying "x" "second", recordSaying "y" "first"] := by
    decide +kernel
  obtain ⟨log, hholds, -, hexport⟩ := toDashboard_commits hl "" ""
  obtain ⟨d, hd, -, hown⟩ := hexport fun _ _ => trivial
  refine ⟨log, d, hholds, hd, fun hall => ?_⟩
  obtain ⟨ms, hms, hperm, -⟩ := hholds.measurements_perm fun m _ => Kind.not_loses_resident m
  obtain rfl := Except.ok.inj (hlist.symm.trans hms)
  have hmem : ∀ m ∈ [recordSaying "x" "second", recordSaying "y" "first"], m ∈ log :=
    fun m hm => (List.map_id log) ▸ hperm.mem_iff.1 hm
  have hcommit := (hown.1 hall).2 _ (hmem _ List.mem_cons_self) _
    (hmem _ (List.mem_cons_of_mem _ (List.mem_singleton_self _))) rfl
  exact absurd hcommit (by decide)

end Ledger

end BenchLedger
