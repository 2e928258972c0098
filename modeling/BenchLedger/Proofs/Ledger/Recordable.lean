import BenchLedger.Proofs.Ledger.Coherence

/-!
# Measurements that go together

Whether valid measurements can be recorded one after another is decided by their series, their
commits and their units alone.  What a ledger of runs holds can be recorded again.
-/

namespace BenchLedger

/-- Series, commit and unit of a measurement. -/
def Measurement.identity (m : Measurement) : SeriesKey × String × MeasureUnit :=
  (m.key, m.commit.id, m.unit)

namespace Ledger

/-- Valid measurements, in each series one for each commit, and all in one unit that some text
writes. -/
structure Recordable (ms : List Measurement) : Prop where
  valid : ∀ m ∈ ms, m.Valid
  written : ∀ m ∈ ms, m.unit.Written
  units : ∀ a ∈ ms, ∀ b ∈ ms, a.key = b.key → a.unit = b.unit
  commits : (ms.map fun m => (m.key, m.commit.id)).Nodup

variable {kind : Kind} {log ms ms' : List Measurement}

theorem nodup_commits_iff : (ms.map fun m => (m.key, m.commit.id)).Nodup ↔
    ms.Pairwise fun a b => a.key = b.key → a.commit.id ≠ b.commit.id := by
  simp only [List.Nodup, List.pairwise_map, Ne, Prod.mk.injEq, not_and]

namespace Recordable

/-- Only the identities of valid measurements count. -/
theorem of_identities (h : Recordable ms)
    (hperm : (ms'.map Measurement.identity).Perm (ms.map Measurement.identity))
    (hvalid : ∀ m ∈ ms', m.Valid) : Recordable ms' := by
  have hlike : ∀ m' ∈ ms', ∃ m ∈ ms, m.key = m'.key ∧ m.unit = m'.unit := by
    intro m' hm'
    obtain ⟨m, hm, heq⟩ := List.mem_map.1 (hperm.mem_iff.1 (List.mem_map_of_mem hm'))
    obtain ⟨hkey, hrest⟩ := Prod.mk.inj heq
    exact ⟨m, hm, hkey, (Prod.mk.inj hrest).2⟩
  refine ⟨hvalid, fun m' hm' => ?_, fun a ha b hb hkey => ?_, ?_⟩
  · obtain ⟨m, hm, -, hunit⟩ := hlike m' hm'
    exact hunit ▸ h.written m hm
  · obtain ⟨a', ha', hakey, haunit⟩ := hlike a ha
    obtain ⟨b', hb', hbkey, hbunit⟩ := hlike b hb
    rw [← haunit, ← hbunit]
    exact h.units a' ha' b' hb' (hakey.trans (hkey.trans hbkey.symm))
  · have hsubjects := hperm.map fun identity => (identity.1, identity.2.1)
    rw [List.map_map, List.map_map] at hsubjects
    exact hsubjects.nodup_iff.2 h.commits

/-- Each of the measurements can be recorded before the others. -/
theorem admits (h : Recordable (log ++ ms)) {m : Measurement} (hm : m ∈ ms) :
    kind.Admits log m where
  valid := h.valid m (List.mem_append_right _ hm)
  fresh old hold :=
    (List.pairwise_append.1 (nodup_commits_iff.1 h.commits)).2.2 old hold m hm
  unit := by
    intro unit hunit
    obtain ⟨first, hfirst, rfl⟩ := Option.map_eq_some_iff.1 hunit
    obtain ⟨hlog, hkey⟩ := List.mem_filter.1 (List.mem_of_mem_head? hfirst)
    have hmem : first ∈ log ++ ms := List.mem_append_left _ hlog
    rw [kind.unit_keep (h.written first hmem)]
    exact h.units first hmem m (List.mem_append_right _ hm) (of_decide_eq_true hkey)

theorem coherent (h : Recordable ms) (kind : Kind) : Coherent kind ms where
  commits := nodup_commits_iff.1 h.commits
  units a ha b hb hkey := by
    rw [kind.unit_keep (h.written a ha), kind.unit_keep (h.written b hb)]
    exact h.units a ha b hb hkey

end Recordable

theorem Coherent.recordable (h : Coherent kind log) (hvalid : ∀ m ∈ log, m.Valid)
    (hwritten : ∀ m ∈ log, m.unit.Written) : Recordable log where
  valid := hvalid
  written := hwritten
  units a ha b hb hkey := by
    have hunits := h.units a ha b hb hkey
    rwa [kind.unit_keep (hwritten a ha), kind.unit_keep (hwritten b hb)] at hunits
  commits := nodup_commits_iff.2 h.commits

end Ledger

end BenchLedger
