import BenchLedger.Proofs.Ledger.Coherence
import BenchLedger.Proofs.Ledger.Receiving

/-!
# Commits and tools that a ledger knows

A ledger tells which commits it has of a tool and which tools it has at all.  A durable ledger finds
both in its rows.  A ledger in memory keeps a list of the commits it has seen, in which a batch
without measurements leaves its commit as well, though there is no record of it.
-/

namespace BenchLedger

namespace Ledger

variable {kind : Kind} {l : Ledger} {log : List Measurement}

/-- The ledger answers that it has just the commits of `known`, and just their tools. -/
structure Knows (l : Ledger) (known : String → String → Prop) : Prop where
  commits : ∀ tool commitId, ∃ found, l.containsCommit tool commitId = .ok found ∧
    (found = true ↔ known tool commitId)
  tools : ∃ tools, l.tools = .ok tools ∧
    Order.Enumerates (fun tool => ∃ commitId, known tool commitId) tools

/-- Some series of the tool has a record of that commit. -/
def Recorded (l : Ledger) (tool commitId : String) : Prop :=
  ∃ name, l.hasRecord ⟨tool, name⟩ commitId = true

namespace Knows

variable {known known' : String → String → Prop}

theorem congr (h : l.Knows known)
    (heq : ∀ tool commitId, known tool commitId ↔ known' tool commitId) : l.Knows known' where
  commits tool commitId := by
    obtain ⟨found, hfound, hknown⟩ := h.commits tool commitId
    exact ⟨found, hfound, hknown.trans (heq tool commitId)⟩
  tools := by
    obtain ⟨tools, htools, hlisted⟩ := h.tools
    exact ⟨tools, htools, hlisted.congr fun tool => exists_congr (heq tool)⟩

-- An answer is about one set of commits only.
theorem unique (h : l.Knows known) (h' : l.Knows known') (tool commitId : String) :
    known tool commitId ↔ known' tool commitId := by
  obtain ⟨found, hfound, hknown⟩ := h.commits tool commitId
  obtain ⟨found', hfound', hknown'⟩ := h'.commits tool commitId
  obtain rfl := Except.ok.inj (hfound.symm.trans hfound')
  exact hknown.symm.trans hknown'

end Knows

namespace Holds

theorem hasRecord_iff (h : Holds kind l log) {key : SeriesKey} {commitId : String} :
    l.hasRecord key commitId = true ↔ ∃ m ∈ log, m.key = key ∧ m.commit.id = commitId := by
  cases h with
  | resident h =>
    show List.any _ _ = true ↔ _
    rw [h.recordsOf, List.any_filter, List.any_eq_true]
    simp
  | durable h =>
    show List.any _ _ = true ↔ _
    rw [h.rowsOf, List.any_map, List.any_filter, List.any_eq_true]
    simp [Row.ofMeasurement]

theorem recorded_iff (h : Holds kind l log) {tool commitId : String} :
    l.Recorded tool commitId ↔ ∃ m ∈ log, m.tool = tool ∧ m.commit.id = commitId := by
  unfold Recorded
  simp only [h.hasRecord_iff]
  constructor
  · rintro ⟨name, m, hm, hkey, hid⟩
    exact ⟨m, hm, congrArg SeriesKey.tool hkey, hid⟩
  · rintro ⟨m, hm, rfl, hid⟩
    exact ⟨m.name, m, hm, rfl, hid⟩

/-- The records of a series, as far as it can be read, are those that the ledger finds there. -/
theorem hasRecord_iff_mem_series (h : Holds kind l log) {key : SeriesKey} {s : Series}
    (hs : l.series key = .ok s) {commitId : String} :
    l.hasRecord key commitId = true ↔ ∃ m ∈ s.records, m.commit.id = commitId := by
  rw [h.hasRecord_iff]
  simp [h.mem_series_iff hs, and_assoc]

theorem knows_durable (h : Holds .durable l log) : l.Knows l.Recorded := by
  have hrecorded := fun tool commitId => @recorded_iff _ _ _ h tool commitId
  cases h with
  | @durable d _ h =>
    constructor
    · intro tool commitId
      refine ⟨d.hasCommit tool commitId, ?_, h.hasCommit_iff.trans (hrecorded _ _).symm⟩
      show (d.connected >>= fun _ => _) = _
      rw [h.connected]
      rfl
    · obtain ⟨tools, htools, hlisted⟩ := h.tools
      refine ⟨tools, htools, hlisted.congr fun tool => ?_⟩
      simp only [hrecorded]
      exact ⟨fun ⟨m, hm, htool⟩ => ⟨m.commit.id, m, hm, htool, rfl⟩,
        fun ⟨_, m, hm, htool, _⟩ => ⟨m, hm, htool⟩⟩

end Holds

/-- Tool and commit of a batch without measurements. -/
def Call.announcement : Call → List (String × String)
  | append tool commit records => if records.isEmpty then [(tool, commit.id)] else []
  | appendRecord _ => []
  | read _ => []

def announces (l : Ledger) (c : Call) : List (String × String) :=
  match l.perform c with
  | .ok _ => c.announcement
  | .error _ => []

/-- What the successful batches without measurements announced, in the order of the calls. -/
def announced (l : Ledger) : List Call → List (String × String)
  | [] => []
  | c :: calls => l.announces c ++ (l.after c).announced calls

end Ledger

namespace Resident

variable {r : Resident} {log : List Measurement}

/-- The commits that a ledger in memory has seen are those of its log and the announced ones. -/
def SeesOnly (r : Resident) (log : List Measurement) (announced : List (String × String)) : Prop :=
  ∀ tool commitId, r.containsCommit tool commitId = true ↔
    (∃ m ∈ log, m.tool = tool ∧ m.commit.id = commitId) ∨ (tool, commitId) ∈ announced

variable {announced : List (String × String)}

theorem SeesOnly.append (h : r.SeesOnly log announced)
    {tool : String} {commit : Commit} {records : List Measurement}
    (hbatch : Ledger.BatchOf tool commit.id records) :
    (records.foldl push (r.see tool commit.id)).SeesOnly (log ++ records)
      (announced ++ (Ledger.Call.append tool commit records).announcement) := by
  intro tool' commitId
  rw [containsCommit_foldl_push, containsCommit_see, h tool' commitId, Ledger.Call.announcement]
  cases records with
  | nil => simp [or_assoc, or_comm]
  | cons m ms =>
    -- the first record of the batch shows its commit already
    have hfirst : tool' = tool ∧ commitId = commit.id →
        ∃ m' ∈ m :: ms, m'.tool = tool' ∧ m'.commit.id = commitId := by
      rintro ⟨rfl, rfl⟩
      exact ⟨m, List.mem_cons_self, hbatch.belongs m List.mem_cons_self⟩
    rw [← or_assoc, or_iff_left_of_imp hfirst]
    simp only [List.isEmpty_cons, Bool.false_eq_true, if_false, List.append_nil, List.mem_append,
      or_and_right, exists_or, ← or_assoc]
    rw [or_comm (a := ∃ m' ∈ m :: ms, _)]

theorem SeesOnly.push (h : r.SeesOnly log announced) (m : Measurement) :
    (r.push m).SeesOnly (log ++ [m]) announced := by
  intro tool commitId
  rw [containsCommit_push, h tool commitId]
  simp [or_and_right, exists_or, or_left_comm, or_assoc, eq_comm]

end Resident

namespace Ledger

variable {r : Resident} {log : List Measurement} {announced : List (String × String)}

-- One call more, and the log and the announcements still tell all that was seen.
theorem seesOnly_after (h : r.Holds log) (hsees : r.SeesOnly log announced) (c : Call) :
    ∃ r', (resident r).after c = resident r' ∧
      r'.SeesOnly (log ++ (resident r).accepted c) (announced ++ (resident r).announces c) := by
  unfold after accepted announces
  cases hok : (resident r).perform c with
  | error e => exact ⟨r, rfl, by simpa using hsees⟩
  | ok l' =>
    dsimp only
    cases c with
    | append tool commit records =>
      obtain ⟨r', hr, rfl⟩ := Fallible.map_eq_ok.1 hok
      obtain ⟨hbatch, -, -, rfl⟩ := h.append_eq_ok.1 hr
      exact ⟨_, rfl, hsees.append (validateBatch_eq_ok.1 hbatch).2⟩
    | appendRecord m =>
      obtain ⟨⟨l'', receipt⟩, hrecord, rfl⟩ := Fallible.map_eq_ok.1 hok
      rw [appendRecord_eq] at hrecord
      obtain ⟨_, -, hput⟩ := Fallible.map_eq_ok.1 hrecord
      obtain rfl := (Prod.mk.inj hput).1
      refine ⟨r.push m, rfl, ?_⟩
      rw [Call.announcement, List.append_nil]
      exact hsees.push m
    | read q =>
      obtain ⟨-, -, rfl⟩ := Fallible.map_eq_ok.1 hok
      exact ⟨r, rfl, by simpa [Call.records, Call.announcement] using hsees⟩

theorem seesOnly_run (h : r.Holds log) (hsees : r.SeesOnly log announced) (calls : List Call) :
    ∃ r', (resident r).run calls = resident r' ∧ r'.Holds (log ++ (resident r).log calls) ∧
      r'.SeesOnly (log ++ (resident r).log calls) (announced ++ (resident r).announced calls) := by
  induction calls generalizing r log announced with
  | nil => exact ⟨r, rfl, by simpa [Ledger.log] using h,
      by simpa [Ledger.log, Ledger.announced] using hsees⟩
  | cons c calls ih =>
    obtain ⟨r', hafter, hstep⟩ := seesOnly_after h hsees c
    have hholds : Holds .resident (resident r') (log ++ (resident r).accepted c) :=
      hafter ▸ (Holds.resident h).after c
    cases hholds with
    | resident hholds =>
      have hrun : (resident r).run (c :: calls) = (resident r').run calls := by
        rw [← hafter]
        rfl
      rw [hrun, Ledger.log, Ledger.announced, hafter, ← List.append_assoc, ← List.append_assoc]
      exact ih hholds hstep

theorem knows_resident (h : r.Holds log) (hsees : r.SeesOnly log announced) :
    (resident r).Knows fun tool commitId =>
      (resident r).Recorded tool commitId ∨ (tool, commitId) ∈ announced := by
  have hrecorded : ∀ tool commitId, (resident r).Recorded tool commitId ↔ _ :=
    fun _ _ => (Holds.resident h).recorded_iff
  have hknown : ∀ tool commitId, r.containsCommit tool commitId = true ↔
      (resident r).Recorded tool commitId ∨ (tool, commitId) ∈ announced := by
    intro tool commitId
    rw [hrecorded]
    exact hsees tool commitId
  constructor
  · exact fun tool commitId => ⟨r.containsCommit tool commitId, rfl, hknown tool commitId⟩
  · refine ⟨_, rfl, (Order.enumerates_sortTexts _).congr fun tool => ?_⟩
    simp only [← hknown, Resident.containsCommit_iff, List.mem_map, Prod.exists,
      exists_and_right, exists_eq_right]

/-- After any calls a ledger knows the commits of its records and their tools, and one in memory
knows besides them what batches without measurements announced.  So what it says of commits and
tools is true of its records just if it is durable or each announced commit has a record. -/
theorem run_knows_recorded (kind : Kind) (calls : List Call) :
    let l := kind.empty.run calls
    let announced := kind.empty.announced calls
    (l.Knows fun tool commitId =>
      l.Recorded tool commitId ∨ kind = .resident ∧ (tool, commitId) ∈ announced) ∧
    (l.Knows l.Recorded ↔ kind = .durable ∨
      ∀ tool commitId, (tool, commitId) ∈ announced → l.Recorded tool commitId) ∧
    ∀ key s, l.series key = .ok s → ∀ commitId,
      l.hasRecord key commitId = true ↔ ∃ m ∈ s.records, m.commit.id = commitId := by
  intro l announced
  have hholds : Holds kind l (kind.empty.log calls) := (Holds.empty kind).run calls
  have hknows : l.Knows fun tool commitId =>
      l.Recorded tool commitId ∨ kind = .resident ∧ (tool, commitId) ∈ announced := by
    cases kind with
    | durable => exact hholds.knows_durable.congr fun _ _ => by simp
    | resident =>
      have hempty : Resident.Holds {} [] := ⟨rfl, by simp, by simp⟩
      have hnothing : Resident.SeesOnly {} [] [] := by
        simp [Resident.SeesOnly, Resident.containsCommit]
      obtain ⟨r, hrun, hr, hsees⟩ := seesOnly_run hempty hnothing calls
      have hl : l = resident r := hrun
      simp only [List.nil_append] at hr hsees
      rw [hl]
      exact (knows_resident hr hsees).congr fun _ _ => or_congr_right (and_iff_right rfl).symm
  refine ⟨hknows, ?_, fun key s hs commitId => hholds.hasRecord_iff_mem_series hs⟩
  constructor
  · intro htrue
    cases kind with
    | durable => exact .inl rfl
    | resident =>
      exact .inr fun tool commitId hannounced =>
        (hknows.unique htrue tool commitId).1 (.inr ⟨rfl, hannounced⟩)
  · rintro (rfl | hrecorded)
    · exact hholds.knows_durable
    · exact hknows.congr fun tool commitId =>
        or_iff_left_of_imp fun h => hrecorded tool commitId h.2

-- A batch without measurements leaves its commit and its tool in a ledger in memory, which holds
-- no record of them.
theorem not_knows_recorded_emptyBatch :
    let calls : List Call := [.append "cargo" (recordAt "c1").commit []]
    let l := Kind.resident.empty.run calls
    l.containsCommit "cargo" "c1" = .ok true ∧ l.tools = .ok ["cargo"] ∧
      ¬l.Recorded "cargo" "c1" ∧ ¬l.Knows l.Recorded := by
  intro calls l
  have hl : l = .resident { records := [], commits := [("cargo", "c1")] } := by decide +kernel
  have hannounced : Kind.resident.empty.announced calls = [("cargo", "c1")] := by decide +kernel
  have hnone : ¬l.Recorded "cargo" "c1" := by
    rintro ⟨name, hrecord⟩
    rw [hl] at hrecord
    exact absurd hrecord Bool.noConfusion
  refine ⟨by rw [hl]; decide, by rw [hl]; decide, hnone, fun hknows => ?_⟩
  obtain hkind | hrecorded := (run_knows_recorded .resident calls).2.1.1 hknows
  · exact absurd hkind Kind.noConfusion
  · exact hnone (hrecorded "cargo" "c1" (hannounced ▸ List.mem_singleton_self _))

end Ledger

end BenchLedger
