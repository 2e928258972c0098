import BenchLedger.Proofs.Lock.Acquisition
import Mathlib.Data.List.Dedup
import Mathlib.Data.List.Perm.Subperm

/-!
# Locks exclude each other

A lock table together with the guards that were handed out and are alive.  Whatever sequence of
calls is made, a series is locked exactly while one guard for it is alive, there is never a second
one, and the table remembers the series that were reached and no others.
-/

namespace BenchLedger

/-- What is asked of a lock table. -/
inductive LockCall where
  | acquire (timeoutMillis : Nat) (key : SeriesKey)
  | acquireAll (timeoutMillis : Nat) (keys : List SeriesKey)
  -- Guards are let go by their places among those that are alive.
  | release (places : List Nat)
  deriving DecidableEq, Repr

/-- The series that a call reaches when it is made of the table `t`. -/
def LockCall.reaches (t : LockTable) : LockCall → List SeriesKey
  | acquire _ key => [key]
  | acquireAll _ keys => t.upToHeld (LockTable.askedFor keys)
  | release _ => []

structure Locking where
  table : LockTable := {}
  -- The guards that are alive, each as the series that it locks.
  guards : List SeriesKey := []
  deriving DecidableEq, Repr

namespace LockTable

/-- A call for one lock gets it if it is free, and waits in vain if it is held. -/
structure TakesOne (t : LockTable) (timeoutMillis : Nat) (key : SeriesKey) : Prop where
  of_free : key ∉ t.held →
    ∃ t', t.acquire timeoutMillis key = (.ok (), t') ∧ t'.held = t.held ++ [key]
  of_held : key ∈ t.held →
    ∃ t', t.acquire timeoutMillis key =
      (.error (.unavailable (waitMessage timeoutMillis key)), t') ∧ t'.held = t.held

/-- A call for several locks gets those of all its series, one for each, or it leaves what is held
as it was, having reached its series in order up to the first that is held. -/
structure TakesAllOrNone (t : LockTable) (timeoutMillis : Nat) (keys : List SeriesKey) : Prop where
  succeeds_iff : (∃ guards t', t.acquireAll timeoutMillis keys = (.ok guards, t')) ↔
    ∀ key ∈ keys, key ∉ t.held
  of_ok : ∀ {guards t'}, t.acquireAll timeoutMillis keys = (.ok guards, t') →
    guards.Nodup ∧ (∀ key, key ∈ guards ↔ key ∈ keys) ∧ t'.held = t.held ++ guards ∧
      ∀ key, key ∈ t'.reached ↔ key ∈ t.reached ∨ key ∈ keys
  of_error : ∀ {e t'}, t.acquireAll timeoutMillis keys = (.error e, t') →
    t'.held = t.held ∧ ∃ front key back,
      (front ++ key :: back).Pairwise (·.before ·) ∧ (∀ k, k ∈ front ++ key :: back ↔ k ∈ keys) ∧
      (∀ k ∈ front, k ∉ t.held) ∧ key ∈ t.held ∧
      e = .unavailable (waitMessage timeoutMillis key) ∧
      ∀ k, k ∈ t'.reached ↔ k ∈ t.reached ∨ k ∈ front ++ [key]

variable (t : LockTable) (timeoutMillis : Nat)

theorem takesOne (key : SeriesKey) : t.TakesOne timeoutMillis key where
  of_free hfree := ⟨_, acquire_of_free hfree, by rw [grant, held_reach]⟩
  of_held hheld := ⟨_, acquire_of_held hheld, held_reach⟩

theorem takesAllOrNone (keys : List SeriesKey) : t.TakesAllOrNone timeoutMillis keys := by
  rcases t.free_or_exists_split keys with hfree | ⟨front, key, back, hsplit, hfree, hheld⟩
  · have hall : t.acquireAll timeoutMillis keys = _ := acquireAll_of_free hfree
    constructor
    · exact ⟨fun _ => hfree, fun _ => ⟨_, _, hall⟩⟩
    · intro guards t' h
      rw [hall] at h
      cases h
      refine ⟨nodup_askedFor keys, fun _ => mem_askedFor, by rw [grant, held_reachEach], ?_⟩
      intro k
      rw [grant, mem_reached_reachEach, mem_askedFor]
    · intro e t' h
      rw [hall] at h
      cases h
  · have hnone : t.acquireAll timeoutMillis keys = _ := acquireAll_of_held hsplit hfree hheld
    have hmem : ∀ k, k ∈ front ++ key :: back ↔ k ∈ keys := fun k => hsplit ▸ mem_askedFor
    constructor
    · constructor
      · rintro ⟨guards, t', h⟩
        rw [hnone] at h
        cases h
      · intro hall
        exact absurd hheld (hall key ((hmem key).1 (by simp)))
    · intro guards t' h
      rw [hnone] at h
      cases h
    · intro e t' h
      rw [hnone] at h
      cases h
      exact ⟨held_reachEach, front, key, back, hsplit ▸ pairwise_askedFor keys, hmem, hfree, hheld,
        rfl, fun _ => mem_reached_reachEach⟩

end LockTable

namespace Locking

-- The guards at some places, and the others.
def dropped (l : Locking) (places : List Nat) : List SeriesKey :=
  (l.guards.zipIdx.filter fun guard => places.contains guard.2).map (·.1)

def kept (l : Locking) (places : List Nat) : List SeriesKey :=
  (l.guards.zipIdx.filter fun guard => !places.contains guard.2).map (·.1)

def perform (l : Locking) : LockCall → Locking
  | .acquire timeoutMillis key =>
    match l.table.acquire timeoutMillis key with
    | (.ok _, table) => { table, guards := l.guards ++ [key] }
    | (.error _, table) => { l with table }
  | .acquireAll timeoutMillis keys =>
    match l.table.acquireAll timeoutMillis keys with
    | (.ok guards, table) => { table, guards := l.guards ++ guards }
    | (.error _, table) => { l with table }
  | .release places => { table := l.table.release (l.dropped places), guards := l.kept places }

def performEach (l : Locking) (calls : List LockCall) : Locking :=
  calls.foldl perform l

/-- The series that a sequence of calls reaches. -/
def reaches (l : Locking) : List LockCall → List SeriesKey
  | [] => []
  | call :: calls => call.reaches l.table ++ (l.perform call).reaches calls

/-- No two guards are for one series, and a lock is held exactly while there is a guard for it. -/
structure Exclusive (l : Locking) : Prop where
  once : l.guards.Nodup
  held_iff : ∀ key, key ∈ l.table.held ↔ key ∈ l.guards

variable {l : Locking}

theorem dropped_append_kept (l : Locking) (places : List Nat) :
    (l.dropped places ++ l.kept places).Perm l.guards := by
  have hperm := (List.filter_append_perm (fun guard => places.contains guard.2)
    l.guards.zipIdx).map Prod.fst
  rwa [List.map_append, List.zipIdx_map_fst] at hperm

/-- What a call can do: it reaches series and takes locks that were free, or it lets guards go. -/
theorem perform_cases (l : Locking) (call : LockCall) :
    (∃ granted, granted.Nodup ∧ (∀ k ∈ granted, k ∉ l.table.held) ∧
      l.perform call =
        { table := (l.table.reachEach (call.reaches l.table)).grant granted
          guards := l.guards ++ granted }) ∨
      ∃ places, call = .release places ∧
        l.perform call =
          { table := l.table.release (l.dropped places), guards := l.kept places } := by
  cases call with
  | acquire timeoutMillis key =>
    left
    by_cases hheld : key ∈ l.table.held
    · refine ⟨[], List.nodup_nil, by simp, ?_⟩
      rw [perform, LockTable.acquire_of_held hheld, LockTable.grant_nil, List.append_nil]
      rfl
    · refine ⟨[key], List.nodup_singleton key, by simpa using hheld, ?_⟩
      rw [perform, LockTable.acquire_of_free hheld]
      rfl
  | acquireAll timeoutMillis keys =>
    left
    rcases l.table.free_or_exists_split keys with hfree | ⟨front, key, back, hsplit, hfree, hheld⟩
    · have hasked : ∀ k ∈ LockTable.askedFor keys, k ∉ l.table.held :=
        fun k hk => hfree k (LockTable.mem_askedFor.1 hk)
      refine ⟨LockTable.askedFor keys, LockTable.nodup_askedFor keys, hasked, ?_⟩
      rw [perform, LockTable.acquireAll_of_free hfree, LockCall.reaches,
        LockTable.upToHeld_of_free hasked]
    · refine ⟨[], List.nodup_nil, by simp, ?_⟩
      rw [perform, LockTable.acquireAll_of_held hsplit hfree hheld, LockCall.reaches, hsplit,
        LockTable.upToHeld_of_held hfree hheld, LockTable.grant_nil, List.append_nil]
  | release places => exact .inr ⟨places, rfl, rfl⟩

theorem Exclusive.perform (h : l.Exclusive) (call : LockCall) : (l.perform call).Exclusive := by
  rcases l.perform_cases call with ⟨granted, hnodup, hfree, heq⟩ | ⟨places, -, heq⟩
  · rw [heq]
    constructor
    · refine List.nodup_append.2 ⟨h.once, hnodup, ?_⟩
      rintro a ha b hb rfl
      exact hfree a hb ((h.held_iff a).2 ha)
    · intro key
      rw [LockTable.mem_held_grant, LockTable.held_reachEach, h.held_iff, List.mem_append]
  · -- the guards that are let go and those that are kept are for different series
    have hperm := l.dropped_append_kept places
    obtain ⟨-, hkept, hdisjoint⟩ := List.nodup_append.1 (hperm.nodup_iff.2 h.once)
    rw [heq]
    constructor
    · exact hkept
    · intro key
      rw [LockTable.mem_held_release, h.held_iff, ← hperm.mem_iff, List.mem_append]
      constructor
      · rintro ⟨hdropped | hkept, hnot⟩
        · exact absurd hdropped hnot
        · exact hkept
      · intro hmem
        exact ⟨.inr hmem, fun hdropped => hdisjoint key hdropped key hmem rfl⟩

theorem Exclusive.performEach (h : l.Exclusive) (calls : List LockCall) :
    (l.performEach calls).Exclusive := by
  unfold Locking.performEach
  induction calls generalizing l with
  | nil => exact h
  | cons call calls ih => exact ih (h.perform call)

theorem reached_perform (l : Locking) (call : LockCall) :
    (l.perform call).table.reached = (l.table.reachEach (call.reaches l.table)).reached := by
  rcases l.perform_cases call with ⟨granted, -, -, heq⟩ | ⟨places, rfl, heq⟩
  · rw [heq]
    rfl
  · rw [heq]
    rfl

theorem mem_reached_performEach (calls : List LockCall) {k : SeriesKey} :
    k ∈ (l.performEach calls).table.reached ↔ k ∈ l.table.reached ∨ k ∈ l.reaches calls := by
  unfold performEach
  induction calls generalizing l with
  | nil => simp [reaches]
  | cons call calls ih =>
    rw [List.foldl_cons, ih, reached_perform, LockTable.mem_reached_reachEach, reaches,
      List.mem_append, or_assoc]

theorem nodup_reached_performEach (h : l.table.reached.Nodup) (calls : List LockCall) :
    (l.performEach calls).table.reached.Nodup := by
  unfold performEach
  induction calls generalizing l with
  | nil => exact h
  | cons call calls ih =>
    refine ih ?_
    rw [reached_perform]
    exact LockTable.nodup_reached_reachEach h

theorem size_le_size_perform (h : l.table.reached.Nodup) (call : LockCall) :
    l.table.size ≤ (l.perform call).table.size := by
  refine (h.subperm ?_).length_le
  intro k hk
  rw [reached_perform, LockTable.mem_reached_reachEach]
  exact .inl hk

/-- After any calls each series is locked by at most one guard, a call gets all its locks or none,
letting guards go frees their series and no others, and the size of the table is the number of
series that were reached so far, which never goes down. -/
theorem exclusive_after (calls : List LockCall) :
    let l := performEach {} calls
    l.Exclusive ∧
      (∀ timeoutMillis key, l.table.TakesOne timeoutMillis key) ∧
      (∀ timeoutMillis keys, l.table.TakesAllOrNone timeoutMillis keys) ∧
      (∀ places key, key ∈ (l.perform (.release places)).table.held ↔
        key ∈ l.table.held ∧ key ∉ l.dropped places) ∧
      l.table.size = (reaches {} calls).dedup.length ∧
      ∀ call, l.table.size ≤ (l.perform call).table.size := by
  intro l
  have hempty : Exclusive {} := ⟨List.nodup_nil, by simp⟩
  have hnodup : l.table.reached.Nodup := nodup_reached_performEach List.nodup_nil calls
  have hreached : ∀ k, k ∈ l.table.reached ↔ k ∈ reaches {} calls := by
    intro k
    rw [mem_reached_performEach]
    simp
  refine ⟨hempty.performEach calls, l.table.takesOne, l.table.takesAllOrNone,
    fun _ _ => LockTable.mem_held_release, ?_, size_le_size_perform hnodup⟩
  have hperm : l.table.reached.Perm (reaches {} calls).dedup :=
    (List.perm_ext_iff_of_nodup hnodup (List.nodup_dedup _)).2 fun k => by
      rw [hreached, List.mem_dedup]
  exact hperm.length_eq

-- The call for three series stops at the second: it reaches the first and keeps none of them.
example : performEach {} [.acquire 20 ⟨"cargo", "b"⟩,
    .acquireAll 20 [⟨"cargo", "c"⟩, ⟨"cargo", "b"⟩, ⟨"cargo", "a"⟩, ⟨"cargo", "b"⟩]] =
    { table := { reached := [⟨"cargo", "b"⟩, ⟨"cargo", "a"⟩], held := [⟨"cargo", "b"⟩] }
      guards := [⟨"cargo", "b"⟩] } := by
  decide

end Locking

end BenchLedger
