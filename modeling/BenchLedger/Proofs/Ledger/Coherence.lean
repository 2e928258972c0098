import BenchLedger.Proofs.Ledger.Representation
import Mathlib.Data.List.Nodup

/-!
# Series are coherent

Whatever is appended to a ledger, one by one or in batches, each series that it reads out consists
of valid records of that tool and name, one for each commit and all in one unit.
-/

namespace BenchLedger.Ledger

variable {kind : Kind} {log : List Measurement}

/-- No series of the log has a commit twice, or two units as a ledger of that kind keeps them. -/
structure Coherent (kind : Kind) (log : List Measurement) : Prop where
  commits : log.Pairwise fun a b => a.key = b.key → a.commit.id ≠ b.commit.id
  units : ∀ a ∈ log, ∀ b ∈ log, a.key = b.key → (kind.keep a).unit = (kind.keep b).unit

-- A unit that a ledger gave back is kept as it is.
theorem Kind.unit_keep_of_unit_eq {a b : Measurement} (ha : a.Valid)
    (h : (kind.keep a).unit = b.unit) : (kind.keep b).unit = b.unit := by
  cases kind with
  | resident => rfl
  | durable =>
    obtain ⟨unit, hunit⟩ := ha.exists_unit
    have hb : b.unit = unit := h.symm.trans (Measurement.stored_unit hunit)
    exact Kind.durable.unit_keep ⟨_, hb ▸ hunit⟩

theorem Kind.exists_unit? (kind : Kind) {a : Measurement} (ha : a ∈ log) :
    ∃ first ∈ log, first.key = a.key ∧ kind.unit? log a.key = some (kind.keep first).unit := by
  cases hseries : log.filter (·.key = a.key) with
  | nil =>
    have hmem : a ∈ log.filter (·.key = a.key) := List.mem_filter.2 ⟨ha, by simp⟩
    rw [hseries] at hmem
    exact absurd hmem List.not_mem_nil
  | cons first rest =>
    have hmem : first ∈ log.filter (·.key = a.key) := by
      rw [hseries]
      exact List.mem_cons_self
    obtain ⟨hfirst, hkey⟩ := List.mem_filter.1 hmem
    refine ⟨first, hfirst, of_decide_eq_true hkey, ?_⟩
    rw [Kind.unit?, hseries]
    rfl

namespace Coherent

theorem nil (kind : Kind) : Coherent kind [] := ⟨.nil, by simp⟩

-- A new record has the unit that its series is kept in.
private theorem unit_eq (h : Coherent kind log) (hvalid : ∀ m ∈ log, m.Valid) {a m : Measurement}
    (ha : a ∈ log) (hkey : a.key = m.key) (hunit : ∀ unit ∈ kind.unit? log m.key, unit = m.unit) :
    (kind.keep a).unit = (kind.keep m).unit := by
  obtain ⟨first, hfirst, hfkey, hfunit⟩ := kind.exists_unit? ha
  have hm : (kind.keep first).unit = m.unit := hunit _ (by rw [← hkey, hfunit]; rfl)
  rw [h.units a ha first hfirst hfkey.symm, hm,
    Kind.unit_keep_of_unit_eq (hvalid first hfirst) hm]

-- Records of different series can be added if each of them suits its series.
theorem append (h : Coherent kind log) (hvalid : ∀ m ∈ log, m.Valid) {records : List Measurement}
    (hkeys : (records.map Measurement.key).Nodup)
    (hfresh : ∀ old ∈ log, ∀ m ∈ records, old.key = m.key → old.commit.id ≠ m.commit.id)
    (hunit : ∀ m ∈ records, ∀ unit ∈ kind.unit? log m.key, unit = m.unit) :
    Coherent kind (log ++ records) where
  commits := by
    rw [List.pairwise_append]
    refine ⟨h.commits, ?_, hfresh⟩
    rw [List.Nodup, List.pairwise_map] at hkeys
    exact hkeys.imp fun hne heq => absurd heq hne
  units a ha b hb hkey := by
    -- of two new records of one series there is only one
    rcases List.mem_append.1 ha with ha | ha
    · rcases List.mem_append.1 hb with hb | hb
      · exact h.units a ha b hb hkey
      · exact h.unit_eq hvalid ha hkey (hunit b hb)
    · rcases List.mem_append.1 hb with hb | hb
      · exact (h.unit_eq hvalid hb hkey.symm (hunit a ha)).symm
      · rw [List.inj_on_of_nodup_map hkeys ha hb hkey]

theorem append_admitted (h : Coherent kind log) (hvalid : ∀ m ∈ log, m.Valid) {m : Measurement}
    (hm : kind.Admits log m) : Coherent kind (log ++ [m]) := by
  refine h.append hvalid (List.nodup_singleton _) ?_ ?_
  · intro old hold m' hm' hkey
    obtain rfl := List.mem_singleton.1 hm'
    exact hm.fresh old hold hkey
  · intro m' hm'
    obtain rfl := List.mem_singleton.1 hm'
    exact hm.unit

theorem append_batch (h : Coherent kind log) (hvalid : ∀ m ∈ log, m.Valid) {tool : String}
    {commit : Commit} {records : List Measurement}
    (hbatch : kind.AdmitsBatch log tool commit records) : Coherent kind (log ++ records) :=
  h.append hvalid hbatch.batch.nodup_keys (hbatch.batch.ne_commit hbatch.fresh) hbatch.unit

end Coherent

variable {l l' : Ledger}

theorem Holds.coherent_perform (h : Holds kind l log) (hc : Coherent kind log) {c : Call}
    (hok : l.perform c = .ok l') : Coherent kind (log ++ c.records) := by
  cases c with
  | append tool commit records => exact hc.append_batch h.valid (h.append hok).2
  | appendRecord m =>
    obtain ⟨⟨l'', receipt⟩, hrecord, -⟩ := Fallible.map_eq_ok.1 hok
    exact hc.append_admitted h.valid (Kind.receive_eq_ok (h.appendRecord_ok hrecord).2).1
  | read q => simpa [Call.records] using hc

theorem Holds.coherent_after (h : Holds kind l log) (hc : Coherent kind log) (c : Call) :
    Coherent kind (log ++ l.accepted c) := by
  unfold accepted
  cases hok : l.perform c with
  | ok l' => exact h.coherent_perform hc hok
  | error e => simpa using hc

theorem Holds.coherent_run (h : Holds kind l log) (hc : Coherent kind log) (calls : List Call) :
    Coherent kind (log ++ l.log calls) := by
  -- a log stays coherent as long as a ledger holds it
  have hrun := run_invariant (P := fun l log => Holds kind l log ∧ Coherent kind log)
    (fun c h => ⟨h.1.after c, h.1.coherent_after h.2 c⟩) ⟨h, hc⟩ calls
  exact hrun.2

theorem Holds.series_ok (h : Holds kind l log) {key : SeriesKey} {s : Series}
    (hs : l.series key = .ok s) :
    s.records.Perm ((log.filter (·.key = key)).map kind.keep) := by
  obtain ⟨rfl, hshows, -⟩ := h.shows_of_series hs
  exact hshows.perm

theorem Holds.mem_series_iff (h : Holds kind l log) {key : SeriesKey} {s : Series}
    (hs : l.series key = .ok s) {a : Measurement} :
    a ∈ s.records ↔ ∃ m ∈ log, m.key = key ∧ kind.keep m = a := by
  rw [(h.series_ok hs).mem_iff]
  simp [and_assoc]

theorem run_series_coherent (kind : Kind) (calls : List Call) (key : SeriesKey) {s : Series}
    (hs : (kind.empty.run calls).series key = .ok s) :
    (∀ m ∈ s.records, m.tool = key.tool ∧ m.name = key.name ∧ m.validate = .ok ()) ∧
    (s.records.map (·.commit.id)).Nodup ∧
    (∀ a ∈ s.records, ∀ b ∈ s.records, a.unit = b.unit) := by
  have h := (Holds.empty kind).run calls
  have hc := (Holds.empty kind).coherent_run (.nil kind) calls
  rw [List.nil_append] at h hc
  generalize kind.empty.log calls = log at h hc
  have hperm := h.series_ok hs
  have hkept : ∀ m ∈ s.records, ∃ a ∈ log, a.key = key ∧ kind.keep a = m := by
    intro m hm
    obtain ⟨a, ha, rfl⟩ := List.mem_map.1 (hperm.mem_iff.1 hm)
    obtain ⟨hlog, hkey⟩ := List.mem_filter.1 ha
    exact ⟨a, hlog, of_decide_eq_true hkey, rfl⟩
  refine ⟨?_, ?_, ?_⟩
  · intro m hm
    obtain ⟨a, ha, rfl, rfl⟩ := hkept m hm
    have hkey := kind.key_keep a
    refine ⟨congrArg SeriesKey.tool hkey, congrArg SeriesKey.name hkey, ?_⟩
    exact Measurement.validate_eq_ok.2 (Kind.valid_keep (h.valid a ha))
  · -- the order in which a series is read does not matter for its commits
    rw [(hperm.map _).nodup_iff, List.map_map, List.Nodup, List.pairwise_map]
    refine (hc.commits.filter _).imp_of_mem ?_
    intro a b ha hb hne
    have hkey := (of_decide_eq_true (List.mem_filter.1 ha).2).trans
      (of_decide_eq_true (List.mem_filter.1 hb).2).symm
    simpa using hne hkey
  · intro m hm m' hm'
    obtain ⟨a, ha, hkey, rfl⟩ := hkept m hm
    obtain ⟨b, hb, hkey', rfl⟩ := hkept m' hm'
    exact hc.units a ha b hb (hkey.trans hkey'.symm)

-- A ledger in memory that was given two commits, and the first of them again.
theorem run_series_coherent_two_commits :
    ∃ s, (Kind.resident.empty.run [.appendRecord (recordAt "c1"), .appendRecord (recordAt "c2"),
        .appendRecord (recordAt "c1")]).series ⟨"cargo", "x"⟩ = .ok s ∧
      s.records.length = 2 ∧ (s.records.map (·.commit.id)).Nodup := by
  have hlength : ((Kind.resident.empty.run [.appendRecord (recordAt "c1"),
      .appendRecord (recordAt "c2"), .appendRecord (recordAt "c1")]).series
        ⟨"cargo", "x"⟩).toOption.map (·.records.length) = some 2 := by
    decide +kernel
  cases hs : (Kind.resident.empty.run [.appendRecord (recordAt "c1"),
      .appendRecord (recordAt "c2"), .appendRecord (recordAt "c1")]).series ⟨"cargo", "x"⟩ with
  | error e =>
    rw [hs] at hlength
    exact nomatch hlength
  | ok s =>
    rw [hs] at hlength
    exact ⟨s, rfl, Option.some.inj hlength,
      (run_series_coherent .resident _ ⟨"cargo", "x"⟩ hs).2.1⟩

end BenchLedger.Ledger
