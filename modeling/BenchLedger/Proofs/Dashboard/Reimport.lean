import BenchLedger.Proofs.Dashboard.Commits

/-!
# Where records stand after an import

If each tool and commit was reported by one run, the runs of a document are those that were
reported, and an empty ledger that imports it gets the records themselves.  They come in the order
of the document, though, which is not that in which they were reported.  So a series gets all its
records back, but those of one time stand by date and commit id.
-/

namespace BenchLedger

/-- What services that ingest these runs make of an empty ledger.  No two of the runs are of one
tool and commit. -/
inductive Ledger.OfRunsOnce (kind : Kind) : List Run → Ledger → Prop where
  | empty : OfRunsOnce kind [] kind.empty
  | run {s s' : Service} {report : Report} {runs : List Run} (h : OfRunsOnce kind runs s.ledger)
    (r : Run) (hnew : r.group ∉ runs.map Run.group) (hok : s.ingestRun r = .ok (report, s')) :
    OfRunsOnce kind (r :: runs) s'.ledger

/-- The place of a measurement in a document: by the time of its commit, its date, its tool and the
id of its commit. -/
def Measurement.rank (m : Measurement) : ℤ ×ₗ ℤ ×ₗ String ×ₗ String :=
  toLex (m.instant.ticks, toLex (m.recordedAt.millis, toLex (m.tool, m.commit.id)))

namespace Measurement

variable {a b : Measurement}

theorem instant_le_of_rank_lt (h : a.rank < b.rank) : a.instant ≤ b.instant := by
  rw [rank, rank, Prod.Lex.toLex_lt_toLex] at h
  rcases h with hlt | ⟨heq, -⟩
  · exact Int.le_of_lt hlt
  · exact Int.le_of_eq heq

theorem rank_lt_of_instant_ne (hle : a.instant ≤ b.instant) (hne : a.instant ≠ b.instant) :
    a.rank < b.rank := by
  rw [rank, rank, Prod.Lex.toLex_lt_toLex]
  exact .inl (lt_of_le_of_ne hle fun heq => hne (Instant.ticks_inj.1 heq))

end Measurement

namespace Series

variable {s t : Series}

-- There is one way to arrange records by rank.
theorem eq_iff_of_perm (hkey : s.key = t.key) (hperm : s.records.Perm t.records)
    (hs : s.records.Pairwise (·.rank < ·.rank)) :
    s = t ↔ t.records.Pairwise (·.rank < ·.rank) := by
  constructor
  · rintro rfl
    exact hs
  · intro ht
    have hrecords : s.records = t.records :=
      hperm.eq_of_pairwise (fun a b _ _ hab hba => absurd hba (lt_asymm hab)) hs ht
    obtain ⟨key, records, sorted⟩ := s
    obtain ⟨key', records', sorted'⟩ := t
    obtain rfl : key = key' := hkey
    obtain rfl : records = records' := hrecords
    rfl

theorem pairwise_rank_of_nodup (h : (s.records.map Measurement.instant).Nodup) :
    s.records.Pairwise (·.rank < ·.rank) := by
  rw [List.Nodup, List.pairwise_map] at h
  refine (s.sorted.and h).imp ?_
  rintro a b ⟨hle, hne⟩
  exact Measurement.rank_lt_of_instant_ne (of_decide_eq_true hle) hne

end Series

/-- The measurements of one tool and commit id have their commit and their date in common. -/
structure Measurement.Uniform (ms : List Measurement) : Prop where
  commit : ∀ a ∈ ms, ∀ b ∈ ms, a.group = b.group → a.commit = b.commit
  recordedAt : ∀ a ∈ ms, ∀ b ∈ ms, a.group = b.group → a.recordedAt = b.recordedAt

/-- An entry of a run is a measurement of its commit and its date. -/
theorem Run.of_mem_entries {r : Run} {m : Measurement} (h : .ok m ∈ r.entries) :
    m.tool = r.tool ∧ m.commit = r.commit ∧ r.recordedAt = .ok m.recordedAt := by
  obtain ⟨b, -, hb⟩ := List.mem_map.1 h
  have hm := Fallible.mapError_eq_ok.1 hb
  have hreports := Run.reports_of_measurement hm
  refine ⟨hreports.tool, hreports.commit, ?_⟩
  obtain ⟨recordedAt, hdate, hm⟩ := Fallible.bind_eq_ok.1 hm
  split at hm
  case h_2 => exact absurd hm Fallible.error_ne_ok
  split at hm
  case h_2 => exact absurd hm Fallible.error_ne_ok
  obtain ⟨_, -, hm⟩ := Fallible.bind_eq_ok.1 hm
  obtain rfl := Except.ok.inj hm
  exact hdate

namespace Ledger.OfRunsOnce

variable {kind : Kind} {runs : List Run} {l : Ledger}

theorem nodup_groups (h : OfRunsOnce kind runs l) : (runs.map Run.group).Nodup := by
  induction h with
  | empty => exact List.nodup_nil
  | run _ r hnew _ ih => exact List.nodup_cons.2 ⟨hnew, ih⟩

theorem afterRun {s : Service} {r : Run} (h : OfRunsOnce kind runs s.ledger)
    (hnew : r.group ∉ runs.map Run.group) (hheader : r.validateHeader = .ok ()) :
    OfRunsOnce kind (r :: runs) (s.afterRun r).ledger := by
  have hok : s.ingestRun r = .ok (s.ingestEntries r.tool r.commit r.entries) :=
    Service.ingestRun_eq_ok.2 ⟨hheader, rfl⟩
  rw [Service.afterRun, hok]
  exact h.run r hnew hok

theorem exists_log (h : OfRunsOnce kind runs l) :
    ∃ log, Records kind l log ∧ ∀ m ∈ log, ∃ r ∈ runs, .ok m ∈ r.entries := by
  induction h with
  | empty => exact ⟨[], .empty kind, by simp⟩
  | run _ r _ hok ih =>
    obtain ⟨log, hlog, hruns⟩ := ih
    obtain ⟨added, hadded, hrecords⟩ := Service.records_ingestRun hlog hok
    refine ⟨_, hrecords, List.forall_mem_append.2 ⟨fun m hm => ?_, fun m hm => ?_⟩⟩
    · obtain ⟨earlier, hearlier, hentry⟩ := hruns m hm
      exact ⟨earlier, List.mem_cons_of_mem r hearlier, hentry⟩
    · exact ⟨r, List.mem_cons_self, hadded m hm⟩

/-- What is in the log of one tool and commit was reported by one run. -/
theorem uniform (h : OfRunsOnce kind runs l) {log : List Measurement}
    (hlog : ∀ m ∈ log, ∃ r ∈ runs, .ok m ∈ r.entries) : Measurement.Uniform log := by
  have hone : ∀ a ∈ log, ∀ b ∈ log, a.group = b.group →
      ∃ r : Run, .ok a ∈ r.entries ∧ .ok b ∈ r.entries := by
    intro a ha b hb hgroup
    obtain ⟨r, hr, harun⟩ := hlog a ha
    obtain ⟨r', hr', hbrun⟩ := hlog b hb
    have hgroups : ∀ {r : Run} {m : Measurement}, .ok m ∈ r.entries → m.group = r.group := by
      intro r m hm
      obtain ⟨htool, hcommit, -⟩ := Run.of_mem_entries hm
      exact Prod.ext htool (congrArg Commit.id hcommit)
    have hsame : r.group = r'.group := (hgroups harun).symm.trans (hgroup.trans (hgroups hbrun))
    obtain rfl := List.inj_on_of_nodup_map h.nodup_groups hr hr' hsame
    exact ⟨r, harun, hbrun⟩
  constructor
  · intro a ha b hb hgroup
    obtain ⟨r, harun, hbrun⟩ := hone a ha b hb hgroup
    exact (Run.of_mem_entries harun).2.1.trans (Run.of_mem_entries hbrun).2.1.symm
  · intro a ha b hb hgroup
    obtain ⟨r, harun, hbrun⟩ := hone a ha b hb hgroup
    have hdate := (Run.of_mem_entries harun).2.2.symm.trans (Run.of_mem_entries hbrun).2.2
    exact Except.ok.inj hdate

end Ledger.OfRunsOnce

namespace Dashboard

variable {ms : List Measurement} {r : Run} {m : Measurement}

/-- The measurements of a document, in the order of its runs. -/
def inOrder (ms : List Measurement) : List Measurement :=
  (runsOf ms).flatMap fun r => ms.filter (·.group = r.group)

variable (hnames : ∀ group, (ms.filter (·.group = group)).Pairwise (·.name < ·.name))
  (huniform : Measurement.Uniform ms)
include hnames huniform

/-- A run shows its measurements under their own commit and date. -/
theorem commit_and_date_of_mem_runsOf (hr : r ∈ runsOf ms) (hm : m ∈ ms)
    (hgroup : m.group = r.group) : r.commit = m.commit ∧ r.date = m.recordedAt.millis := by
  have hgathers := (partition_runsOf hnames).gathers r hr
  obtain ⟨a, ha, hcommit⟩ := hgathers.commit
  obtain ⟨b, hb, hdate⟩ := hgathers.date
  obtain ⟨ha, hagroup⟩ := List.mem_filter.1 ha
  obtain ⟨hb, hbgroup⟩ := List.mem_filter.1 hb
  constructor
  · rw [← hcommit]
    exact huniform.commit a ha m hm ((of_decide_eq_true hagroup).trans hgroup.symm)
  · rw [← hdate, huniform.recordedAt b hb m hm ((of_decide_eq_true hbgroup).trans hgroup.symm)]

theorem rank_of_mem_runsOf (hr : r ∈ runsOf ms) (hm : m ∈ ms) (hgroup : m.group = r.group) :
    m.rank = r.rank := by
  obtain ⟨hcommit, hdate⟩ := commit_and_date_of_mem_runsOf hnames huniform hr hm hgroup
  rw [Run.rank, hcommit, hdate, ← (Prod.mk.inj hgroup).1]
  rfl

/-- What the runs report is what they were formed of. -/
theorem flatMap_restateAll (hplain : ∀ m ∈ ms, m.Plain) :
    (runsOf ms).flatMap (·.restateAll ms) = inOrder ms := by
  refine List.flatMap_congr fun r hr => ?_
  have hrestate : ∀ m ∈ ms.filter (·.group = r.group), r.restate m = m := by
    intro m hm
    obtain ⟨hm, hgroup⟩ := List.mem_filter.1 hm
    obtain ⟨hcommit, hdate⟩ :=
      commit_and_date_of_mem_runsOf hnames huniform hr hm (of_decide_eq_true hgroup)
    rw [Run.restate, hcommit, hdate, Instant.ofMillis?_millis (hplain m hm).recordedAt]
    rfl
  rw [Run.restateAll, List.map_congr_left hrestate, List.map_id']

-- In one series there is one measurement of each run.
theorem pairwise_rank_inOrder (key : SeriesKey) :
    ((inOrder ms).filter (·.key = key)).Pairwise (·.rank < ·.rank) := by
  rw [inOrder, List.filter_flatMap, List.pairwise_flatMap]
  constructor
  · intro r _
    refine ((hnames r.group).filter _).imp_of_mem fun {a b} ha hb hlt => ?_
    have ha : a.key = key := of_decide_eq_true (List.mem_filter.1 ha).2
    have hb : b.key = key := of_decide_eq_true (List.mem_filter.1 hb).2
    exact absurd (congrArg SeriesKey.name (ha.trans hb.symm)) hlt.ne
  · refine (Run.sorted_of_groups (.refl (groupKeys ms))).1.imp_of_mem ?_
    intro r r' hr hr' hlt a ha b hb
    obtain ⟨ha, hagroup⟩ := List.mem_filter.1 (List.mem_filter.1 ha).1
    obtain ⟨hb, hbgroup⟩ := List.mem_filter.1 (List.mem_filter.1 hb).1
    rwa [rank_of_mem_runsOf hnames huniform hr ha (of_decide_eq_true hagroup),
      rank_of_mem_runsOf hnames huniform hr' hb (of_decide_eq_true hbgroup)]

end Dashboard

namespace Ledger

variable {kind : Kind} {l : Ledger} {log ms : List Measurement}

-- What a ledger gave back it keeps as it is.
theorem keep_eq_self {m : Measurement} (h : m.Plain) : kind.keep (kind.keep m) = kind.keep m := by
  have hnumber : kind.number (kind.number m.value) = kind.number m.value := by
    cases kind with
    | resident => rfl
    | durable =>
      show Row.number (Row.number m.value) = Row.number m.value
      unfold Row.number
      by_cases hzero : (m.value == 0) = true
      · simp [hzero]
      · simp [hzero]
  have hcommit : (kind.keep (kind.keep m)).commit = (kind.keep m).commit := by
    cases kind with
    | resident => rfl
    | durable => exact m.commit.kept_kept
  have hvalue : (kind.keep m).value = kind.number m.value := by rw [h.keep_eq]
  rw [(h.keep kind).keep_eq, hcommit, hvalue, hnumber, ← hvalue]

theorem Lists.recordable (h : Lists kind l log ms) (hlog : ∀ m ∈ log, m.OfRun) :
    Recordable ms := by
  have hrecordable := h.records.coherent.recordable (fun m hm => (hlog m hm).plain.valid)
    fun m hm => (hlog m hm).plain.unit
  refine hrecordable.of_identities ((h.perm.map _).trans ?_) fun m hm => (h.plain m hm).valid
  rw [List.map_map]
  exact .of_eq (List.map_congr_left fun m hm => (hlog m hm).plain.identity_keep kind)

theorem Lists.uniform (h : Lists kind l log ms) (hlog : ∀ m ∈ log, m.OfRun)
    (huniform : Measurement.Uniform log) : Measurement.Uniform ms := by
  have hdate : ∀ m ∈ log, (kind.keep m).recordedAt = m.recordedAt := by
    intro m hm
    rw [(hlog m hm).plain.keep_eq]
  constructor
  · simp only [h.forall_mem_iff, Measurement.group_keep]
    exact fun a ha b hb hgroup => Kind.commit_keep_congr (huniform.commit a ha b hb hgroup)
  · simp only [h.forall_mem_iff, Measurement.group_keep]
    intro a ha b hb hgroup
    rw [hdate a ha, hdate b hb]
    exact huniform.recordedAt a ha b hb hgroup

-- What a ledger lists has passed through one of its kind already.
theorem Lists.map_keep (h : Lists kind l log ms) (hlog : ∀ m ∈ log, m.OfRun)
    {records : List Measurement} (hrecords : ∀ m ∈ records, m ∈ ms) :
    records.map kind.keep = records := by
  have hkept : ∀ m ∈ records, kind.keep m = id m := by
    intro m hm
    obtain ⟨recorded, hrecorded, rfl⟩ := List.mem_map.1 (h.perm.mem_iff.1 (hrecords m hm))
    exact keep_eq_self (hlog recorded hrecorded).plain
  rw [List.map_congr_left hkept, List.map_id]

/-- An empty ledger that imports the document of a ledger gets what that lists, in the order of the
document. -/
theorem Lists.holds_importDashboard (h : Lists kind l log ms) (hlog : ∀ m ∈ log, m.OfRun)
    (huniform : Measurement.Uniform ms) {s : Service} (hempty : s.ledger = kind.empty)
    (repoUrl suite : String) :
    Holds kind (s.importDashboard (.ofMeasurements repoUrl suite ms)).2.ledger
      (Dashboard.inOrder ms) := by
  have hruns := Dashboard.runs_ofMeasurements repoUrl suite ms
  have hstates : ∀ run ∈ (Dashboard.ofMeasurements repoUrl suite ms).runs,
      run.2.States (run.2.restateAll ms) := by
    rw [hruns, List.forall_mem_map]
    exact fun r hr =>
      Run.states_of_group? h.plain (h.names r.group) (Dashboard.group?_of_mem_runsOf hr)
  have horder : (Dashboard.ofMeasurements repoUrl suite ms).runs.flatMap
      (·.2.restateAll ms) = Dashboard.inOrder ms := by
    rw [hruns, List.flatMap_map]
    exact Dashboard.flatMap_restateAll h.names huniform h.plain
  have hperm : (Dashboard.inOrder ms).Perm ms := (Dashboard.partition_runsOf h.names).everything
  have hrecordable : Recordable (Dashboard.inOrder ms) :=
    (h.recordable hlog).of_identities (hperm.map _) fun m hm =>
      (h.plain m (hperm.mem_iff.1 hm)).valid
  have hstart : Holds kind s.ledger [] := hempty ▸ .empty kind
  have himport :=
    Service.importRuns_of_recordable (·.restateAll ms) hstart hstates (by rwa [horder])
  rw [horder] at himport
  exact himport.2

/-- A ledger that is imported into an empty one of its kind, after each tool and commit was reported
by one run whose commit it can read back, gets every series back with the same records.  They stand
by commit time, date and commit id; those of one time did so before just if the series is the
same. -/
theorem series_importDashboard {runs : List Run} (h : OfRunsOnce kind runs l)
    (hread : ∀ r ∈ runs, kind.ReadsCommit r.commit) (repoUrl suite : String) :
    ∃ d, l.toDashboard repoUrl suite = .ok d ∧ ∀ s : Service, s.ledger = kind.empty → ∀ key,
      ∃ original imported, l.series key = .ok original ∧
        (s.importDashboard d).2.ledger.series key = .ok imported ∧
        imported.records.Perm original.records ∧
        imported.records.Pairwise (·.rank < ·.rank) ∧
        (imported = original ↔ original.records.Pairwise (·.rank < ·.rank)) ∧
        ((original.records.map Measurement.instant).Nodup → imported = original) := by
  obtain ⟨log, hlog, hruns⟩ := h.exists_log
  have hofRun : ∀ m ∈ log, m.OfRun := by
    intro m hm
    obtain ⟨r, -, hentry⟩ := hruns m hm
    exact Run.ofRun_of_mem_entries hentry
  have hlogread : ∀ m ∈ log, kind.ReadsCommit m.commit := by
    intro m hm
    obtain ⟨r, hr, hentry⟩ := hruns m hm
    rw [(Run.of_mem_entries hentry).2.1]
    exact hread r hr
  obtain ⟨ms, hms⟩ := hlog.exists_lists hofRun hlogread
  have huniform := hms.uniform hofRun (h.uniform hruns)
  have horder : (Dashboard.inOrder ms).Perm ms := (Dashboard.partition_runsOf hms.names).everything
  refine ⟨_, hms.toDashboard repoUrl suite, fun s hempty key => ?_⟩
  have hkept : ∀ m ∈ log, m.key = key → ¬kind.Loses m := fun m hm _ =>
    Kind.not_loses (hlogread m hm) (hofRun m hm).plain.recordedAt
  -- the commits of the document were read back once, so they are kept
  have hcommits : ∀ m ∈ Dashboard.inOrder ms, m.key = key → kind.KeepsCommit m.commit := by
    have hlisted : ∀ m ∈ ms, kind.KeepsCommit m.commit :=
      hms.forall_mem_iff.2 fun m hm => Kind.keepsCommit_keep (hlogread m hm)
    exact fun m hm _ => hlisted m (horder.mem_iff.1 hm)
  have hkept' : ∀ m ∈ Dashboard.inOrder ms, m.key = key → ¬kind.Loses m := fun m hm hmkey =>
    Kind.not_loses (hcommits m hm hmkey).reads (hms.plain m (horder.mem_iff.1 hm)).recordedAt
  have hholds := hms.holds_importDashboard hofRun huniform hempty repoUrl suite
  obtain ⟨original, horiginal, hkey, hshows⟩ := hlog.holds.series_of_kept hkept
  have hperm := hshows.perm
  rw [hkey] at hperm
  obtain ⟨imported, himported, hkey', hsorted'⟩ := hholds.series_sorted hkept' hcommits
  rw [hms.map_keep hofRun fun m hm => horder.mem_iff.1 (List.mem_of_mem_filter hm)] at hsorted'
  -- records that stand by rank are sorted by time already
  have hranks := Dashboard.pairwise_rank_inOrder hms.names huniform key
  have hrecords : imported.records = (Dashboard.inOrder ms).filter (·.key = key) :=
    hsorted'.unique ⟨.refl _, hranks.imp Measurement.instant_le_of_rank_lt, fun _ => rfl⟩
  have hsame : imported.records.Perm original.records := by
    have hkeep : (ms.filter (·.key = key)).Perm ((log.filter (·.key = key)).map kind.keep) := by
      have hfilter := hms.perm.filter fun m => decide (m.key = key)
      rw [List.filter_map] at hfilter
      refine hfilter.trans (.of_eq (congrArg _ (List.filter_congr fun m _ => ?_)))
      rw [Function.comp, kind.key_keep]
    rw [hrecords]
    exact (horder.filter _).trans (hkeep.trans hperm.symm)
  rw [← hrecords] at hranks
  have heq := Series.eq_iff_of_perm (hkey'.trans hkey.symm) hsame hranks
  exact ⟨original, imported, horiginal, himported, hsame, hranks, heq, fun hnodup =>
    heq.2 (Series.pairwise_rank_of_nodup hnodup)⟩

-- Two commits of one time that were reported in the order of their ids.
theorem series_importDashboard_ascendingIds :
    let s : Service := { ledger := Kind.resident.empty }
    let l := ((s.afterRun (runAt "c1" 1)).afterRun (runAt "c2" 2)).ledger
    ∃ d series, l.toDashboard "" "" = .ok d ∧ l.series ⟨"cargo", "x"⟩ = .ok series ∧
      series.size = 2 ∧ (s.importDashboard d).2.ledger.series ⟨"cargo", "x"⟩ = .ok series := by
  intro s l
  have hl : OfRunsOnce .resident [runAt "c2" 2, runAt "c1" 1] l :=
    OfRunsOnce.afterRun (OfRunsOnce.afterRun (s := s) .empty (by decide) (by decide +kernel))
      (by decide) (by decide +kernel)
  have hseries : (l.series ⟨"cargo", "x"⟩).toOption.map
      (fun series => (series.size, decide (series.records.Pairwise (·.rank < ·.rank)))) =
        some (2, true) := by
    decide +kernel
  obtain ⟨d, hd, himport⟩ := series_importDashboard hl (fun _ _ => trivial) "" ""
  obtain ⟨original, imported, horiginal, himported, -, -, hiff, -⟩ :=
    himport s rfl ⟨"cargo", "x"⟩
  rw [horiginal] at hseries
  obtain ⟨hsize, hranks⟩ := Prod.mk.inj (Option.some.inj hseries)
  obtain rfl := hiff.2 (of_decide_eq_true hranks)
  exact ⟨d, imported, hd, horiginal, hsize, himported⟩

-- Reported the other way round they change places.
theorem series_importDashboard_descendingIds :
    let s : Service := { ledger := Kind.resident.empty }
    let l := ((s.afterRun (runAt "c2" 2)).afterRun (runAt "c1" 1)).ledger
    OfRunsOnce .resident [runAt "c1" 1, runAt "c2" 2] l ∧
      ∃ d, l.toDashboard "" "" = .ok d ∧
        (l.series ⟨"cargo", "x"⟩).map (·.records.map (·.commit.id)) = .ok ["c2", "c1"] ∧
        ((s.importDashboard d).2.ledger.series ⟨"cargo", "x"⟩).map
          (·.records.map (·.commit.id)) = .ok ["c1", "c2"] := by
  intro s l
  refine ⟨OfRunsOnce.afterRun (OfRunsOnce.afterRun (s := s) .empty (by decide)
    (by decide +kernel)) (by decide) (by decide +kernel), ?_⟩
  have hboth : (l.toDashboard "" "").toOption.map (fun d =>
      ((s.importDashboard d).2.ledger.series ⟨"cargo", "x"⟩).map
        (·.records.map (·.commit.id))) = some (.ok ["c1", "c2"]) := by
    decide +kernel
  cases hd : l.toDashboard "" "" with
  | error e =>
    rw [hd] at hboth
    exact nomatch hboth
  | ok d =>
    rw [hd] at hboth
    exact ⟨d, rfl, by decide +kernel, Option.some.inj hboth⟩

end Ledger

end BenchLedger
