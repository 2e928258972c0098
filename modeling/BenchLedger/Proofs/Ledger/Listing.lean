import BenchLedger.Dashboard.Export
import BenchLedger.Proofs.Ledger.Coherence
import BenchLedger.Proofs.Order.Grouping

/-!
# Everything that a ledger holds

A ledger lists its measurements series by series.  The list has every record of the log once, as
the ledger keeps it, unless a record cannot be read back: then there is no list.
-/

namespace BenchLedger

/-- Series are listed by tool and then by name. -/
def SeriesKey.Before (a b : SeriesKey) : Prop :=
  a.tool < b.tool ∨ a.tool = b.tool ∧ a.name < b.name

theorem SeriesKey.not_before_self (key : SeriesKey) : ¬key.Before key := by
  rintro (hlt | ⟨-, hlt⟩)
  · exact Std.lt_irrefl hlt
  · exact Std.lt_irrefl hlt

/-- The series of some tools by the names that each of them has. -/
def SeriesKey.all (tools : List String) (names : String → List String) : List SeriesKey :=
  tools.flatMap fun tool => (names tool).map (⟨tool, ·⟩)

theorem SeriesKey.mem_all {tools : List String} {names : String → List String} {key : SeriesKey} :
    key ∈ all tools names ↔ key.tool ∈ tools ∧ key.name ∈ names key.tool := by
  obtain ⟨tool, name⟩ := key
  simp [all]

theorem SeriesKey.pairwise_all {tools : List String} {names : String → List String}
    (htools : tools.Pairwise (· < ·)) (hnames : ∀ tool, (names tool).Pairwise (· < ·)) :
    (all tools names).Pairwise Before := by
  rw [all, List.flatMap_def, List.pairwise_flatten, List.forall_mem_map]
  refine ⟨fun tool _ => ?_, ?_⟩
  · rw [List.pairwise_map]
    exact (hnames tool).imp fun hlt => .inr ⟨rfl, hlt⟩
  · rw [List.pairwise_map]
    refine htools.imp fun hlt a ha b hb => ?_
    obtain ⟨_, -, rfl⟩ := List.mem_map.1 ha
    obtain ⟨_, -, rfl⟩ := List.mem_map.1 hb
    exact .inl hlt

namespace Ledger

variable {kind : Kind} {l : Ledger} {log : List Measurement}

namespace Holds

theorem tools (h : Holds kind l log) :
    ∃ tools, l.tools = .ok tools ∧ tools.Pairwise (· < ·) ∧ ∀ m ∈ log, m.tool ∈ tools := by
  cases h with
  | @resident r log h =>
    have htools := Order.enumerates_sortTexts (r.commits.map (·.1))
    refine ⟨_, rfl, htools.ascending, fun m hm => ?_⟩
    have hseen := Resident.containsCommit_iff.1 (h.seen m hm)
    exact (htools.mem_iff m.tool).2 (List.mem_map_of_mem hseen)
  | durable h =>
    obtain ⟨tools, heq, htools⟩ := h.tools
    exact ⟨tools, heq, htools.ascending, fun m hm => (htools.mem_iff m.tool).2 ⟨m, hm, rfl⟩⟩

-- Why a series cannot be read.
theorem series_eq_error (h : Holds kind l log) {key : SeriesKey} {e : LedgerError}
    (hs : l.series key = .error e) :
    ∃ m ∈ log, ∃ what, kind.loss? m = some what ∧ e = .corrupt what := by
  by_cases hkept : ∀ m ∈ log, m.key = key → ¬kind.Loses m
  · obtain ⟨s, heq, -⟩ := h.series_of_kept hkept
    rw [hs] at heq
    exact nomatch heq
  · simp only [not_forall, not_not] at hkept
    obtain ⟨m, hm, rfl, hlost⟩ := hkept
    obtain ⟨m', hm', -, what, hwhat, heq⟩ := h.series_of_lost hm hlost
    exact ⟨m', hm', what, hwhat, Except.error.inj (hs.symm.trans heq)⟩

/-- A ledger that has lost nothing lists its series one after another. -/
theorem measurements_of_kept (h : Holds kind l log) (hkept : ∀ m ∈ log, ¬kind.Loses m) :
    ∃ (keys : List SeriesKey) (records : SeriesKey → List Measurement),
      l.measurements = .ok (keys.flatMap records) ∧ keys.Pairwise SeriesKey.Before ∧
      (∀ m ∈ log, m.key ∈ keys) ∧
      ∀ key, (records key).Perm ((log.filter (·.key = key)).map kind.keep) := by
  obtain ⟨tools, htools, hascending, htool⟩ := h.tools
  choose names hnames hname using h.names
  choose s hs hkey hshows using fun key : SeriesKey =>
    h.series_of_kept fun m hm (_ : m.key = key) => hkept m hm
  have hperm : ∀ key, (s key).records.Perm ((log.filter (·.key = key)).map kind.keep) :=
    fun key => by simpa only [hkey key] using (hshows key).perm
  refine ⟨SeriesKey.all tools names, fun key => (s key).records, ?_,
    SeriesKey.pairwise_all hascending fun tool => (hname tool).ascending, fun m hm => ?_, hperm⟩
  · have hinner : ∀ tool, (names tool).mapM (fun name => do
        return (← l.series ⟨tool, name⟩).records) =
        .ok ((names tool).map fun name => (s ⟨tool, name⟩).records) := fun tool =>
      Fallible.mapM_ok fun name _ => by rw [hs]; rfl
    have houter : tools.mapM (fun tool => do
        (← l.names tool).mapM fun name => return (← l.series ⟨tool, name⟩).records) =
        .ok (tools.map fun tool => (names tool).map fun name => (s ⟨tool, name⟩).records) :=
      Fallible.mapM_ok fun tool _ => by rw [hnames, Fallible.ok_bind, hinner]
    unfold measurements
    rw [htools, Fallible.ok_bind, houter]
    refine congrArg Except.ok ?_
    simp only [SeriesKey.all, List.flatMap_def, List.map_flatten, List.map_map, Function.comp_def]
  · exact SeriesKey.mem_all.2 ⟨htool m hm, ((hname m.tool).mem_iff m.name).2 ⟨m, hm, rfl, rfl⟩⟩

/-- The list has every record of the log once, as the ledger keeps it, the series one behind another
in their order. -/
theorem measurements_perm (h : Holds kind l log) (hkept : ∀ m ∈ log, ¬kind.Loses m) :
    ∃ ms, l.measurements = .ok ms ∧ ms.Perm (log.map kind.keep) ∧
      ms.Pairwise fun a b => a.key = b.key ∨ a.key.Before b.key := by
  obtain ⟨keys, records, heq, hkeys, hmem, hperm⟩ := h.measurements_of_kept hkept
  have hfilter : ∀ key, (log.filter (·.key = key)).map kind.keep =
      (log.map kind.keep).filter (·.key = key) := by
    intro key
    rw [List.filter_map]
    exact congrArg _ (List.filter_congr fun m _ => by simp)
  have hkey : ∀ key, ∀ m ∈ records key, m.key = key := by
    intro key m hm
    have hmem := (hperm key).mem_iff.1 hm
    rw [hfilter] at hmem
    exact of_decide_eq_true (List.mem_filter.1 hmem).2
  refine ⟨_, heq, ?_, ?_⟩
  · have hgroups : (keys.flatMap records).Perm
        (keys.flatMap fun key => (log.map kind.keep).filter (·.key = key)) := by
      refine List.Perm.flatMap_left keys fun key _ => ?_
      rw [← hfilter]
      exact hperm key
    refine hgroups.trans (Order.flatMap_filter_perm_of_mem Measurement.key ?_ ?_)
    · refine hkeys.imp ?_
      rintro key _ hbefore rfl
      exact key.not_before_self hbefore
    · rw [List.forall_mem_map]
      intro m hm
      rw [kind.key_keep]
      exact hmem m hm
  · rw [List.flatMap_def, List.pairwise_flatten, List.forall_mem_map, List.pairwise_map]
    refine ⟨fun key _ => ?_, hkeys.imp fun hbefore a ha b hb => .inr ?_⟩
    · exact List.pairwise_of_forall_mem_list fun a ha b hb =>
        .inl ((hkey key a ha).trans (hkey key b hb).symm)
    · rwa [hkey _ a ha, hkey _ b hb]

/-- A ledger that has lost a record lists nothing. -/
theorem measurements_of_lost (h : Holds kind l log) {m : Measurement} (hm : m ∈ log)
    (hlost : kind.Loses m) :
    ∃ m' ∈ log, ∃ what, kind.loss? m' = some what ∧ l.measurements = .error (.corrupt what) := by
  obtain ⟨tools, htools, -, htool⟩ := h.tools
  choose names hnames hname using h.names
  obtain ⟨_, -, -, _, -, hseries⟩ := h.series_of_lost hm hlost
  have hrecords : (l.series m.key >>= fun s => pure s.records) = .error _ :=
    congrArg (· >>= fun s : Series => pure s.records) hseries
  -- the tool of the lost record is not listed, so there is a first tool that is not
  obtain ⟨_, -, e, -, hinner⟩ := Fallible.mapM_eq_error_of_mem
    (f := fun name => do return (← l.series ⟨m.tool, name⟩).records)
    (((hname m.tool).mem_iff m.name).2 ⟨m, hm, rfl, rfl⟩) hrecords
  have htoolfails : (l.names m.tool >>= fun names => names.mapM fun name => do
      return (← l.series ⟨m.tool, name⟩).records) = .error e := by
    rw [hnames, Fallible.ok_bind, hinner]
  obtain ⟨tool, -, e, hfirst, houter⟩ := Fallible.mapM_eq_error_of_mem
    (f := fun tool => do
      (← l.names tool).mapM fun name => return (← l.series ⟨tool, name⟩).records)
    (htool m hm) htoolfails
  rw [hnames, Fallible.ok_bind] at hfirst
  obtain ⟨name, -, hname⟩ := Fallible.exists_of_mapM_eq_error hfirst
  have hunread : l.series ⟨tool, name⟩ = .error e := by
    cases hs : l.series ⟨tool, name⟩ with
    | error e' =>
      rw [hs] at hname
      exact congrArg _ (Except.error.inj hname)
    | ok s =>
      rw [hs] at hname
      exact nomatch hname
  obtain ⟨m', hm', what, hwhat, rfl⟩ := h.series_eq_error hunread
  refine ⟨m', hm', what, hwhat, ?_⟩
  unfold measurements
  rw [htools, Fallible.ok_bind, houter]
  rfl

end Holds

end Ledger

end BenchLedger
