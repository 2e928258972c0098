import BenchLedger.Proofs.Ingest.Reachable
import BenchLedger.Proofs.Ledger.Listing
import BenchLedger.Proofs.Ledger.Log
import Mathlib.Data.Prod.Lex
import Mathlib.Data.String.Basic

/-!
# A document is a partition of the history

The document of a ledger has one run for each tool and commit of its records, and every record is
in its run once.  Runs and entries stand in strict orders, so that a document does not depend on
the order in which the groups of records were formed.
-/

namespace BenchLedger

/-- The tool and the commit, by which measurements are gathered in runs. -/
def Measurement.group (m : Measurement) : String × String :=
  (m.tool, m.commit.id)

def Run.group (r : Run) : String × String :=
  (r.tool, r.commit.id)

/-- The place of a run in a document: by the time of its commit, its date, its tool and the id of
its commit. -/
def Run.rank (r : Run) : ℤ ×ₗ ℤ ×ₗ String ×ₗ String :=
  toLex (r.commit.instant.ticks, toLex (r.date, toLex (r.tool, r.commit.id)))

/-- The entry that shows a measurement. -/
def Bench.ofMeasurement (m : Measurement) : Bench where
  name := m.name
  value := m.value
  range := RangeText.write m.range
  unit := m.unit.text

/-- The run shows just these measurements, in the order of their names, under the commit of one of
them and the latest of their dates. -/
structure Run.Gathers (r : Run) (ms : List Measurement) : Prop where
  benches : ∃ sorted : List Measurement, sorted.Perm ms ∧ sorted.Pairwise (·.name < ·.name) ∧
    r.benches = sorted.map .ofMeasurement
  commit : ∃ m ∈ ms, m.commit = r.commit
  date : ∃ m ∈ ms, m.recordedAt.millis = r.date
  latest : ∀ m ∈ ms, m.recordedAt.millis ≤ r.date

/-- The runs are the measurements, gathered by tool and commit. -/
structure Run.Partition (runs : List Run) (ms : List Measurement) : Prop where
  groups : (runs.map Run.group).Nodup
  mem_groups : ∀ group, group ∈ runs.map Run.group ↔ ∃ m ∈ ms, m.group = group
  gathers : ∀ r ∈ runs, r.Gathers (ms.filter (·.group = r.group))
  everything : (runs.flatMap fun r => ms.filter (·.group = r.group)).Perm ms

theorem Run.notAfter_eq : Run.notAfter = fun a b => decide (a.rank ≤ b.rank) := by
  funext a b
  have hlt : a.commit.instant < b.commit.instant ↔
      a.commit.instant.ticks < b.commit.instant.ticks := Iff.rfl
  have hne : a.commit.instant ≠ b.commit.instant ↔
      a.commit.instant.ticks ≠ b.commit.instant.ticks := not_congr Instant.ticks_inj.symm
  have hid : (!decide (b.commit.id < a.commit.id)) = decide (a.commit.id ≤ b.commit.id) := by
    rw [← decide_not]
    exact decide_eq_decide.2 not_lt
  unfold notAfter rank
  simp only [hlt, hne, hid, Prod.Lex.toLex_le_toLex]
  -- of the four keys the first that differs decides
  by_cases hticks : a.commit.instant.ticks = b.commit.instant.ticks
  · by_cases hdate : a.date = b.date
    · by_cases htool : a.tool = b.tool
      · simp [hticks, hdate, htool]
      · simp [hticks, hdate, htool]
    · simp [hticks, hdate]
  · simp [hticks]

section Groups

variable {ms : List Measurement} {r : Run}

theorem group?_eq (ms : List Measurement) (group : String × String) :
    group? ms group =
      match ms.filter (·.group = group) with
      | [] => none
      | m :: others => some (.ofRecords group.1 m.commit (m :: others)) :=
  rfl

theorem mem_groupKeys {group : String × String} :
    group ∈ groupKeys ms ↔ ∃ m ∈ ms, m.group = group := by
  rw [groupKeys, List.mem_eraseDups, List.mem_map]
  rfl

theorem nodup_groupKeys (ms : List Measurement) : (groupKeys ms).Nodup :=
  Order.nodup_eraseDups _

theorem exists_group? {group : String × String} (h : ∃ m ∈ ms, m.group = group) :
    ∃ r, group? ms group = some r := by
  obtain ⟨m, hm, hgroup⟩ := h
  have hmem : m ∈ ms.filter (·.group = group) :=
    List.mem_filter.2 ⟨hm, decide_eq_true hgroup⟩
  rw [group?_eq]
  cases hfilter : ms.filter (·.group = group) with
  | nil =>
    rw [hfilter] at hmem
    exact absurd hmem List.not_mem_nil
  | cons first others => exact ⟨_, rfl⟩

theorem group_of_group? {group : String × String} (h : group? ms group = some r) :
    r.group = group := by
  rw [group?_eq] at h
  split at h
  · exact nomatch h
  case h_2 m others hfilter =>
    obtain rfl := Option.some.inj h
    have hm : m ∈ ms.filter (·.group = group) := by
      rw [hfilter]
      exact List.mem_cons_self
    have hgroup : m.group = group := of_decide_eq_true (List.mem_filter.1 hm).2
    rw [← hgroup]
    rfl

/-- A run that was formed of a group shows the measurements of the group. -/
theorem gathers_of_group? {group : String × String} (h : group? ms group = some r)
    (hnames : (ms.filter (·.group = group)).Pairwise (·.name < ·.name)) :
    r.Gathers (ms.filter (·.group = group)) := by
  rw [group?_eq] at h
  split at h
  · exact nomatch h
  case h_2 m others hfilter =>
    obtain rfl := Option.some.inj h
    rw [hfilter] at hnames ⊢
    obtain ⟨date, hdate⟩ : ∃ date, ((m :: others).map (·.recordedAt.millis)).max? = some date :=
      Option.isSome_iff_exists.1 (List.isSome_max?_of_ne_nil (List.cons_ne_nil _ _))
    obtain ⟨hmem, hle⟩ := List.max?_eq_some_iff.1 hdate
    obtain ⟨latest, hlatest, hmillis⟩ := List.mem_map.1 hmem
    have hrun : (Run.ofRecords group.1 m.commit (m :: others)).date = date := by
      rw [Run.ofRecords, hdate]
      rfl
    refine ⟨⟨_, .refl _, hnames, rfl⟩, ⟨m, List.mem_cons_self, rfl⟩, ⟨latest, hlatest, ?_⟩, ?_⟩
    · rw [hrun, hmillis]
    · intro m' hm'
      rw [hrun]
      exact hle _ (List.mem_map_of_mem hm')

theorem map_group_filterMap {groups : List (String × String)}
    (h : ∀ group ∈ groups, ∃ m ∈ ms, m.group = group) :
    (groups.filterMap (group? ms)).map Run.group = groups := by
  induction groups with
  | nil => rfl
  | cons group groups ih =>
    rw [List.forall_mem_cons] at h
    obtain ⟨r, hr⟩ := exists_group? h.1
    rw [List.filterMap_cons_some hr, List.map_cons, group_of_group? hr, ih h.2]

end Groups

namespace Run

variable {ms ms' : List Measurement} {groups : List (String × String)}

theorem Gathers.of_perm {r : Run} (h : r.Gathers ms) (hperm : ms.Perm ms') : r.Gathers ms' := by
  obtain ⟨⟨sorted, hsorted, hnames, hbenches⟩, ⟨m, hm, hcommit⟩, ⟨latest, hlatest, hdate⟩, hle⟩ := h
  exact ⟨⟨sorted, hsorted.trans hperm, hnames, hbenches⟩, ⟨m, hperm.mem_iff.1 hm, hcommit⟩,
    ⟨latest, hperm.mem_iff.1 hlatest, hdate⟩, fun m hm => hle m (hperm.mem_iff.2 hm)⟩

theorem Partition.of_perm {runs : List Run} (h : Partition runs ms) (hperm : ms.Perm ms') :
    Partition runs ms' where
  groups := h.groups
  mem_groups group := (h.mem_groups group).trans
    (exists_congr fun _ => and_congr_left' hperm.mem_iff)
  gathers r hr := (h.gathers r hr).of_perm (hperm.filter _)
  everything := by
    have hgroups := List.Perm.flatMap_left runs fun r _ =>
      hperm.filter (fun m => decide (m.group = r.group))
    exact hgroups.symm.trans (h.everything.trans hperm)

theorem partition_of_perm {runs : List Run} (hgroups : groups.Perm (groupKeys ms))
    (hruns : runs.Perm (groups.filterMap (group? ms)))
    (hnames : ∀ group, (ms.filter (·.group = group)).Pairwise (·.name < ·.name)) :
    Partition runs ms := by
  have hmem : ∀ group, group ∈ groups ↔ ∃ m ∈ ms, m.group = group := fun group =>
    hgroups.mem_iff.trans mem_groupKeys
  have hmap : (runs.map Run.group).Perm groups := by
    have hperm := hruns.map Run.group
    rwa [map_group_filterMap fun group => (hmem group).1] at hperm
  have hnodup : (runs.map Run.group).Nodup :=
    (hmap.trans hgroups).nodup_iff.2 (nodup_groupKeys ms)
  refine ⟨hnodup, fun group => hmap.mem_iff.trans (hmem group), fun r hr => ?_, ?_⟩
  · obtain ⟨group, -, hgroup⟩ := List.mem_filterMap.1 (hruns.mem_iff.1 hr)
    rw [group_of_group? hgroup]
    exact gathers_of_group? hgroup (hnames group)
  · have hall := Order.flatMap_filter_perm_of_mem Measurement.group hnodup fun m hm =>
      hmap.mem_iff.2 ((hmem _).2 ⟨m, hm, rfl⟩)
    rwa [List.flatMap_map] at hall

/-- Whatever the order in which the groups come, there is one sorted list of their runs. -/
theorem sorted_of_groups (hgroups : groups.Perm (groupKeys ms)) :
    let runs := Order.stableSort Run.notAfter (groups.filterMap (group? ms))
    runs.Pairwise (·.rank < ·.rank) ∧
      runs = Order.stableSort Run.notAfter ((groupKeys ms).filterMap (group? ms)) := by
  intro runs
  have hsorted : ∀ groups : List (String × String), Order.StablySorted rank
      (groups.filterMap (group? ms))
      (Order.stableSort Run.notAfter (groups.filterMap (group? ms))) := by
    intro groups
    rw [notAfter_eq]
    exact Order.stablySorted_stableSort rank _
  have hnodup : ((groups.filterMap (group? ms)).map rank).Nodup := by
    refine List.Nodup.of_map (fun rank => ((ofLex (ofLex (ofLex rank).2).2).1,
      (ofLex (ofLex (ofLex rank).2).2).2)) ?_
    rw [List.map_map]
    have hgroup := map_group_filterMap fun group hgroup =>
      mem_groupKeys.1 (hgroups.mem_iff.1 hgroup)
    show ((groups.filterMap (group? ms)).map Run.group).Nodup
    rw [hgroup]
    exact hgroups.nodup_iff.2 (nodup_groupKeys ms)
  constructor
  · have hdistinct : runs.Pairwise (·.rank ≠ ·.rank) := by
      rw [← List.pairwise_map (R := (· ≠ ·))]
      exact ((hsorted groups).perm.map rank).nodup_iff.2 hnodup
    exact ((hsorted groups).ascending.and hdistinct).imp fun h => lt_of_le_of_ne h.1 h.2
  · exact (hsorted groups).eq_of_perm (hsorted _) (hgroups.filterMap _) hnodup

end Run

/-- The document shows the measurements as those runs, all in one suite. -/
structure Dashboard.Shows (d : Dashboard) (suite : String) (runs : List Run)
    (ms : List Measurement) : Prop where
  partition : Run.Partition runs ms
  ordered : runs.Pairwise (·.rank < ·.rank)
  entries : runs ≠ [] → d.entries = [(suite, runs)]
  lastUpdate : runs ≠ [] → ∃ r ∈ runs, r.date = d.lastUpdate
  latest : ∀ r ∈ runs, r.date ≤ d.lastUpdate
  nothing : ms = [] → d.entries = [] ∧ d.lastUpdate = 0

/-- The runs of a document of those measurements. -/
def Dashboard.runsOf (ms : List Measurement) : List Run :=
  Order.stableSort Run.notAfter ((groupKeys ms).filterMap (group? ms))

theorem Dashboard.shows_ofMeasurements {ms ms' : List Measurement} (repoUrl suite : String)
    (hnames : ∀ group, (ms.filter (·.group = group)).Pairwise (·.name < ·.name))
    (hperm : ms.Perm ms') :
    (ofMeasurements repoUrl suite ms).Shows suite (runsOf ms) ms' := by
  have hpartition : Run.Partition (runsOf ms) ms :=
    Run.partition_of_perm (.refl _) (Order.stableSort_perm _ _) hnames
  have hrunless : runsOf ms = [] → ofMeasurements repoUrl suite ms = ⟨0, repoUrl, []⟩ := by
    intro hnil
    show Dashboard.mk (((runsOf ms).map (·.date)).max?.getD 0) repoUrl
      (if (runsOf ms).isEmpty then [] else [(suite, runsOf ms)]) = _
    rw [hnil]
    rfl
  have hdate : runsOf ms ≠ [] → ((runsOf ms).map (·.date)).max? =
      some (ofMeasurements repoUrl suite ms).lastUpdate := by
    intro hne
    obtain ⟨date, hdate⟩ := Option.isSome_iff_exists.1
      (List.isSome_max?_of_ne_nil (mt List.map_eq_nil_iff.1 hne) :
        ((runsOf ms).map (·.date)).max?.isSome)
    show _ = some (((runsOf ms).map (·.date)).max?.getD 0)
    rw [hdate]
    rfl
  refine ⟨hpartition.of_perm hperm, (Run.sorted_of_groups (.refl _)).1, fun hne => ?_,
    fun hne => ?_, fun r hr => ?_, fun hnil => ?_⟩
  · show (if (runsOf ms).isEmpty then [] else [(suite, runsOf ms)]) = _
    rw [if_neg (by simpa using hne)]
  · exact List.mem_map.1 (List.max?_eq_some_iff.1 (hdate hne)).1
  · exact (List.max?_eq_some_iff.1 (hdate (List.ne_nil_of_mem hr))).2 _ (List.mem_map_of_mem hr)
  · obtain rfl := hnil
    obtain rfl := hperm.eq_nil
    rw [hrunless rfl]
    exact ⟨rfl, rfl⟩

namespace Ledger

variable {kind : Kind} {l : Ledger} {log : List Measurement}

-- The records of one tool and commit come from different series, so their names ascend.
theorem Records.pairwise_names (h : Records kind l log) {ms : List Measurement}
    (hperm : ms.Perm (log.map kind.keep))
    (hkeys : ms.Pairwise fun a b => a.key = b.key ∨ a.key.Before b.key)
    (group : String × String) :
    (ms.filter (·.group = group)).Pairwise (·.name < ·.name) := by
  have hcommits : ms.Pairwise fun a b => a.key = b.key → a.commit.id ≠ b.commit.id := by
    refine (hperm.pairwise_iff fun hne hkey => (hne hkey.symm).symm).2 ?_
    rw [List.pairwise_map]
    simpa using h.coherent.commits
  refine ((hkeys.and hcommits).filter _).imp_of_mem ?_
  rintro a b ha hb ⟨hkey, hcommit⟩
  have hgroup : a.group = b.group :=
    (of_decide_eq_true (List.mem_filter.1 ha).2).trans
      (of_decide_eq_true (List.mem_filter.1 hb).2).symm
  obtain ⟨htool, hid⟩ := Prod.mk.inj hgroup
  rcases hkey with hkey | hbefore | ⟨-, hname⟩
  · exact absurd hid (hcommit hkey)
  · exact absurd htool (ne_of_lt hbefore)
  · exact hname

/-- What a ledger lists that has lost nothing, and its documents. -/
theorem Records.toDashboard_of_kept (h : Records kind l log)
    (hkept : ∀ m ∈ log, ¬kind.Loses m) :
    ∃ ms, l.measurements = .ok ms ∧ ms.Perm (log.map kind.keep) ∧
      (∀ group, (ms.filter (·.group = group)).Pairwise (·.name < ·.name)) ∧
      ∀ repoUrl suite, l.toDashboard repoUrl suite = .ok (.ofMeasurements repoUrl suite ms) := by
  obtain ⟨ms, hms, hperm, hkeys⟩ := h.holds.measurements_perm hkept
  refine ⟨ms, hms, hperm, h.pairwise_names hperm hkeys, fun repoUrl suite => ?_⟩
  rw [toDashboard, hms]
  rfl

/-- The document of a ledger shows every record that it holds just once, whatever the order in
which the groups of records are formed; only a record that cannot be read back keeps a ledger from
being exported. -/
theorem toDashboard_of_reachable (h : Reachable kind l) :
    ∃ log, Holds kind l log ∧
      ((∃ m ∈ log, kind.Loses m) → ∃ m ∈ log, ∃ what, kind.loss? m = some what ∧
        ∀ repoUrl suite, l.toDashboard repoUrl suite = .error (.corrupt what)) ∧
      ((∀ m ∈ log, ¬kind.Loses m) → ∃ ms runs, l.measurements = .ok ms ∧
        (∀ repoUrl suite, ∃ d, l.toDashboard repoUrl suite = .ok d ∧ d.repoUrl = repoUrl ∧
          d.Shows suite runs (log.map kind.keep)) ∧
        ∀ groups : List (String × String), groups.Perm (groupKeys ms) →
          Order.stableSort Run.notAfter (groups.filterMap (group? ms)) = runs) := by
  obtain ⟨log, hlog⟩ := h.exists_log
  refine ⟨log, hlog.holds, ?_, fun hkept => ?_⟩
  · rintro ⟨m, hm, hlost⟩
    obtain ⟨m', hm', what, hwhat, hfail⟩ := hlog.holds.measurements_of_lost hm hlost
    refine ⟨m', hm', what, hwhat, fun repoUrl suite => ?_⟩
    rw [toDashboard, hfail]
    rfl
  · obtain ⟨ms, hms, hperm, hnames, hdocument⟩ := hlog.toDashboard_of_kept hkept
    refine ⟨ms, Dashboard.runsOf ms, hms, fun repoUrl suite => ?_, fun groups hgroups => ?_⟩
    · exact ⟨_, hdocument repoUrl suite, rfl,
        Dashboard.shows_ofMeasurements repoUrl suite hnames hperm⟩
    · exact (Run.sorted_of_groups hgroups).2

theorem Holds.map_row {log' : List Measurement} (h : Holds kind l log)
    (h' : Holds kind l log') : log.map Row.ofMeasurement = log'.map Row.ofMeasurement := by
  cases h with
  | resident h =>
    cases h' with
    | resident h' => rw [← h.records, h'.records]
  | durable h =>
    cases h' with
    | durable h' => rw [← h.rows, h'.rows]

-- A durable ledger with a record from the end of the calendar is reachable, and not exported.
theorem toDashboard_of_reachable_endOfCalendar :
    (Kind.durable.empty.after (.appendRecord endOfCalendar)).toDashboard "" "" =
      .error (.corrupt "recorded_at 8210266876800000") := by
  obtain ⟨log, hholds, hlost, -⟩ :=
    toDashboard_of_reachable (Reachable.empty.call (.appendRecord endOfCalendar))
  have hadmits : Kind.durable.Admits [] endOfCalendar :=
    ⟨valid_endOfCalendar, by simp, by simp [Kind.unit?]⟩
  obtain ⟨receipt, hrecord, hput⟩ := (Holds.empty .durable).appendRecord_of_admits hadmits
  have hperform : Kind.durable.empty.perform (.appendRecord endOfCalendar) =
      .ok (Kind.durable.empty.put endOfCalendar) := congrArg (Except.map Prod.fst) hrecord
  -- the log is that one record, so far as rows can tell
  rw [← (accepted_of_ok hperform).1] at hput
  have hrows := hholds.map_row hput
  obtain ⟨m, rfl, hrow⟩ := List.map_eq_singleton_iff.1 hrows
  have hloss : Kind.durable.loss? m = some "recorded_at 8210266876800000" := by
    have hvalid := hholds.valid m (List.mem_singleton_self m)
    refine (Row.loss?_congr hvalid valid_endOfCalendar hrow).trans ?_
    decide +kernel
  obtain ⟨m', hm', what, hwhat, hfail⟩ :=
    hlost ⟨m, List.mem_singleton_self m, by simp [Kind.Loses, hloss]⟩
  rw [List.mem_singleton.1 hm', hloss] at hwhat
  rw [hfail, Option.some.inj hwhat]

end Ledger

end BenchLedger
