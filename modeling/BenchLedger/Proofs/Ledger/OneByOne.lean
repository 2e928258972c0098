import BenchLedger.Proofs.Ingest.Reachable
import BenchLedger.Proofs.Ledger.ArrivalOrder
import BenchLedger.Proofs.Ledger.Units

/-!
# Batches are appended one by one

A batch of a new commit is checked as a whole before anything is written.  Its records are of
different series, so that none of them changes what another is checked against: appending the batch
is appending its records one after another, and the units decide whether either is possible.
-/

namespace BenchLedger

-- A record makes its commit seen, whether or not it was seen before.
theorem Resident.push_see (r : Resident) (m : Measurement) :
    (r.see m.tool m.commit.id).push m = r.push m := by
  unfold push see
  by_cases hseen : r.containsCommit m.tool m.commit.id = true
  · rw [if_pos hseen]
  · have hnow : Resident.containsCommit { r with commits := r.commits ++ [(m.tool, m.commit.id)] }
        m.tool m.commit.id = true := by
      simp [containsCommit]
    rw [if_neg hseen]
    exact (if_pos hnow).trans (if_neg hseen).symm

-- The commit of a batch is that of its first record.
theorem Resident.foldl_push_see {r : Resident} {tool commitId : String} {ms : List Measurement}
    (hne : ms ≠ []) (hown : ∀ m ∈ ms, m.tool = tool ∧ m.commit.id = commitId) :
    ms.foldl push (r.see tool commitId) = ms.foldl push r := by
  cases ms with
  | nil => exact absurd rfl hne
  | cons m ms =>
    obtain ⟨rfl, rfl⟩ := hown m List.mem_cons_self
    rw [List.foldl_cons, List.foldl_cons, push_see]

namespace Ledger

variable {kind : Kind} {l : Ledger} {log ms records : List Measurement} {tool : String}
  {commit : Commit}

theorem Kind.unit?_append_of_ne {m : Measurement} {key : SeriesKey} (h : m.key ≠ key) :
    kind.unit? (log ++ [m]) key = kind.unit? log key := by
  simp [unit?, h]

theorem Holds.not_mem_of_containsCommit (h : Holds kind l log) {commitId : String}
    (hnew : l.containsCommit tool commitId = .ok false) :
    ∀ old ∈ log, ¬(old.tool = tool ∧ old.commit.id = commitId) := by
  rintro old hold ⟨rfl, rfl⟩
  cases h with
  | resident h =>
    have hseen := Except.ok.inj hnew
    rw [h.seen old hold] at hseen
    contradiction
  | @durable d _ h =>
    have hcommit : d.hasCommit old.tool old.commit.id = false := by
      have hnew : (d.connected >>= fun _ => pure (d.hasCommit old.tool old.commit.id)) =
        .ok false := hnew
      rw [h.connected] at hnew
      exact Except.ok.inj hnew
    rw [h.hasCommit_iff.2 ⟨old, hold, rfl, rfl⟩] at hcommit
    contradiction

/-- Measurements of different series, each of a commit that is new there, are recorded one after
another if each has the unit that its series had at first. -/
theorem Holds.appendEach_of_new (h : Holds kind l log) (hvalid : ∀ m ∈ ms, m.Valid)
    (hkeys : (ms.map Measurement.key).Nodup)
    (hnew : ∀ old ∈ log, ∀ m ∈ ms, old.key = m.key → old.commit.id ≠ m.commit.id) :
    l.appendEach ms =
      (ms.forM fun m => ensureUnit (kind.unit? log m.key) m).map fun _ => l.putAll ms := by
  induction ms generalizing l log with
  | nil => rfl
  | cons m ms ih =>
    rw [List.forall_mem_cons] at hvalid
    rw [List.map_cons, List.nodup_cons] at hkeys
    have hfirst : ∀ old ∈ log, old.key = m.key → old.commit.id ≠ m.commit.id :=
      fun old hold => hnew old hold m List.mem_cons_self
    have hrecord := h.appendRecord_of_new hvalid.1 hfirst
    show ((l.appendRecord m).map (·.1) >>= fun l => l.appendEach ms) =
      Except.map _ (ensureUnit (kind.unit? log m.key) m >>= fun _ => ms.forM _)
    rw [hrecord]
    cases hunit : ensureUnit (kind.unit? log m.key) m with
    | error e => rfl
    | ok _ =>
      -- the other series are as they were
      have hother : ∀ m' ∈ ms, m.key ≠ m'.key := fun m' hm' heq =>
        hkeys.1 (List.mem_map.2 ⟨m', hm', heq.symm⟩)
      have hunits : (ms.forM fun m' => ensureUnit (kind.unit? (log ++ [m]) m'.key) m') =
          ms.forM fun m' => ensureUnit (kind.unit? log m'.key) m' :=
        Fallible.forM_congr fun m' hm' => by rw [Kind.unit?_append_of_ne (hother m' hm')]
      have hfresh : ∀ old ∈ log ++ [m], ∀ m' ∈ ms, old.key = m'.key →
          old.commit.id ≠ m'.commit.id := by
        intro old hold m' hm' hkey
        rcases List.mem_append.1 hold with hold | hold
        · exact hnew old hold m' (List.mem_cons_of_mem m hm') hkey
        · rw [List.mem_singleton.1 hold] at hkey
          exact absurd hkey (hother m' hm')
      obtain ⟨-, -, hholds⟩ :=
        h.appendRecord_of_admits ⟨hvalid.1, hfirst, ensureUnit_eq_ok.1 hunit⟩
      have hrest := ih hholds hvalid.2 hkeys.2 hfresh
      rw [hunits] at hrest
      exact hrest

theorem Holds.append_of_new (h : Holds kind l log)
    (hbatch : validateBatch tool commit records = .ok ()) (hne : records ≠ [])
    (hnew : l.containsCommit tool commit.id = .ok false) :
    l.append tool commit records =
      (records.forM fun m => ensureUnit (kind.unit? log m.key) m).map fun _ =>
        l.putAll records := by
  have hown := (validateBatch_eq_ok.1 hbatch).2.belongs
  have hfresh := h.not_mem_of_containsCommit hnew
  cases h with
  | @resident r _ h =>
    have hunseen : ¬r.containsCommit tool commit.id = true := by
      rw [Except.ok.inj hnew]
      decide
    show ((r.append tool commit records).map Ledger.resident) = _
    rw [putAll_resident, ← Resident.foldl_push_see hne hown]
    unfold Resident.append
    simp only [checked_eq_ok.2 hbatch, Fallible.ok_bind, if_neg hunseen, h.unit?]
    cases records.forM fun m => ensureUnit (Kind.resident.unit? log m.key) m <;> rfl
  | @durable d _ h =>
    have hcommit : ¬d.hasCommit tool commit.id = true := by
      intro hfound
      obtain ⟨old, hold, hsame⟩ := h.hasCommit_iff.1 hfound
      exact hfresh old hold hsame
    show ((d.append tool commit records).map Ledger.durable) = _
    rw [putAll_durable]
    unfold Durable.append
    simp only [checked_eq_ok.2 hbatch, h.connected, Fallible.ok_bind, if_neg hcommit, h.unit?]
    cases records.forM fun m => ensureUnit (Kind.durable.unit? log m.key) m <;> rfl

/-- A batch of a new commit is appended as its records are one by one, to the same ledger or with
the same error; it is appended if every record has the unit of its series. -/
theorem append_eq_appendEach (h : Reachable kind l)
    (hbatch : validateBatch tool commit records = .ok ()) (hne : records ≠ [])
    (hnew : l.containsCommit tool commit.id = .ok false) :
    l.append tool commit records = l.appendEach records ∧
    ((∃ l', l.append tool commit records = .ok l') ↔ ∀ m ∈ records, l.KeepsUnit m) := by
  obtain ⟨log, ⟨hholds, -⟩⟩ := h.exists_log
  have hrecords := (validateBatch_eq_ok.1 hbatch).2
  have hfresh := hrecords.ne_commit (hholds.not_mem_of_containsCommit hnew)
  rw [hholds.append_of_new hbatch hne hnew,
    hholds.appendEach_of_new hrecords.valid hrecords.nodup_keys hfresh]
  refine ⟨rfl, ?_⟩
  constructor
  · rintro ⟨l', hok⟩
    obtain ⟨_, hunits, -⟩ := Fallible.map_eq_ok.1 hok
    exact fun m hm => hholds.ensureUnit_eq_ok_iff.1 (Fallible.forM_eq_ok.1 hunits m hm)
  · intro hkeeps
    have hunits := Fallible.forM_eq_ok.2 fun m hm => hholds.ensureUnit_eq_ok_iff.2 (hkeeps m hm)
    rw [hunits]
    exact ⟨_, rfl⟩

-- A commit with a record of a known series and one of a new series.
theorem append_eq_appendEach_knownAndNew :
    let l := Kind.durable.empty.after (.appendRecord (recordAt "c1"))
    let records := [recordAt "c2", { recordAt "c2" with name := "y" }]
    l.containsCommit "cargo" "c2" = .ok false ∧
      l.append "cargo" (recordAt "c2").commit records = l.appendEach records ∧
      ∃ l', l.append "cargo" (recordAt "c2").commit records = .ok l' := by
  intro l records
  have hbatch : validateBatch "cargo" (recordAt "c2").commit records = .ok () := by decide +kernel
  have hnew : l.containsCommit "cargo" "c2" = .ok false := by decide +kernel
  have hreachable : Reachable .durable l := Reachable.empty.call _
  have hknown : l.unit? ⟨"cargo", "x"⟩ = .ok (some .nanosecondsPerIteration) := by decide +kernel
  have hnone : l.unit? ⟨"cargo", "y"⟩ = .ok none := by decide +kernel
  have hkeeps : ∀ m ∈ records, l.KeepsUnit m := by
    refine List.forall_mem_cons.2 ⟨fun unit hunit => ?_,
      List.forall_mem_singleton.2 fun unit hunit => ?_⟩
    · exact (Option.some.inj (Except.ok.inj (hknown.symm.trans hunit))).symm
    · exact nomatch Except.ok.inj (hnone.symm.trans hunit)
  obtain ⟨heach, hunits⟩ := append_eq_appendEach hreachable hbatch (List.cons_ne_nil _ _) hnew
  exact ⟨hnew, heach, hunits.2 hkeeps⟩

end Ledger

end BenchLedger
