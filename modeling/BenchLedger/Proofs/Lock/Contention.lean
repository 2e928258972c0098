import BenchLedger.Proofs.Lock.Acquisition
import Mathlib.Algebra.Ring.Nat

/-!
# Callers at one lock table

Several callers take their locks one by one, in any interleaving, and each lets all of its locks go
after the last.  A caller that waits holds only series before the one that it waits for, so of all
callers that wait, one that waits for the last series does so for a caller that does not wait:
there is always a caller that can go on.
-/

namespace BenchLedger

/-- A caller with the locks that it took and, in order, those that it is still to take. -/
inductive Caller where
  | acquiring (taken awaited : List SeriesKey)
  -- All of its locks were let go.
  | finished
  deriving DecidableEq, Repr

namespace Caller

-- A caller asks for its series in the order of a call for all of them.
def arriving (keys : List SeriesKey) : Caller :=
  acquiring [] (LockTable.askedFor keys)

def taken : Caller → List SeriesKey
  | acquiring taken _ => taken
  | finished => []

def awaited : Caller → List SeriesKey
  | acquiring _ awaited => awaited
  | finished => []

/-- The caller takes its next lock, if that is free, or lets all of them go after the last. -/
def advance? (timeoutMillis : Nat) (t : LockTable) : Caller → Option (LockTable × Caller)
  | acquiring taken (key :: awaited) =>
    match t.acquire timeoutMillis key with
    | (.ok _, t) => some (t, acquiring (taken ++ [key]) awaited)
    | (.error _, _) => none
  | acquiring taken [] => some (t.release taken, finished)
  | finished => none

-- The steps that the caller is still to take.
def remaining : Caller → Nat
  | acquiring _ awaited => awaited.length + 1
  | finished => 0

variable {timeoutMillis : Nat} {t t' : LockTable} {c c' : Caller}

/-- What a step of a caller can be. -/
theorem advance?_eq_some (h : c.advance? timeoutMillis t = some (t', c')) :
    (∃ taken key awaited, c = acquiring taken (key :: awaited) ∧ key ∉ t.held ∧
      t' = (t.reach key).grant [key] ∧ c' = acquiring (taken ++ [key]) awaited) ∨
      ∃ taken, c = acquiring taken [] ∧ t' = t.release taken ∧ c' = finished := by
  match c with
  | acquiring taken (key :: awaited) =>
    left
    by_cases hheld : key ∈ t.held
    · rw [advance?, LockTable.acquire_of_held hheld] at h
      cases h
    · rw [advance?, LockTable.acquire_of_free hheld] at h
      cases h
      exact ⟨taken, key, awaited, rfl, hheld, rfl, rfl⟩
  | acquiring taken [] =>
    right
    cases h
    exact ⟨taken, rfl, rfl, rfl⟩
  | finished => cases h

/-- A caller that is not finished and cannot go on waits for a lock that is held. -/
theorem exists_awaited_of_advance?_eq_none (h : c.advance? timeoutMillis t = none)
    (hc : c ≠ finished) : ∃ key ∈ c.awaited.head?, key ∈ t.held := by
  match c with
  | acquiring taken (key :: awaited) =>
    refine ⟨key, rfl, ?_⟩
    by_contra hfree
    rw [advance?, LockTable.acquire_of_free hfree] at h
    cases h
  | acquiring taken [] => cases h
  | finished => exact absurd rfl hc

end Caller

/-- A lock table and the callers that came to it. -/
structure Contention where
  table : LockTable
  callers : List Caller
  deriving DecidableEq, Repr

namespace Contention

/-- Callers arrive, each with the series that it asks for, while no lock is held. -/
def start (reached : List SeriesKey) (asked : List (List SeriesKey)) : Contention where
  table := { reached }
  callers := asked.map .arriving

/-- One step of the caller at place `i`, if it can go on. -/
def advance? (timeoutMillis : Nat) (s : Contention) (i : Nat) : Option Contention := do
  let c ← s.callers[i]?
  let (table, c) ← c.advance? timeoutMillis s.table
  return { table, callers := s.callers.set i c }

/-- The callers take steps in the order of a schedule, which names the place of each. -/
def run? (timeoutMillis : Nat) (s : Contention) (schedule : List Nat) : Option Contention :=
  schedule.foldlM (advance? timeoutMillis) s

def remaining (s : Contention) : Nat :=
  (s.callers.map Caller.remaining).sum

/-- Each caller asks for ascending series, and what is held is held by one of them. -/
structure Ordered (s : Contention) : Prop where
  ascending : ∀ c ∈ s.callers, (c.taken ++ c.awaited).Pairwise (·.before ·)
  held : ∀ key ∈ s.table.held, ∃ c ∈ s.callers, key ∈ c.taken

variable {timeoutMillis : Nat} {s s' : Contention}

theorem advance?_eq_some {i : Nat} (h : s.advance? timeoutMillis i = some s') :
    ∃ c table c', s.callers[i]? = some c ∧ c.advance? timeoutMillis s.table = some (table, c') ∧
      s' = { table, callers := s.callers.set i c' } := by
  obtain ⟨c, hc, h⟩ := Option.bind_eq_some_iff.1 h
  obtain ⟨⟨table, c'⟩, hc', h⟩ := Option.bind_eq_some_iff.1 h
  exact ⟨c, table, c', hc, hc', (Option.some.inj h).symm⟩

theorem run?_of_acquireInOrder {t t' : LockTable} {taken awaited guards : List SeriesKey}
    (h : t.acquireInOrder timeoutMillis taken awaited = (.ok guards, t')) :
    run? timeoutMillis { table := t, callers := [.acquiring taken awaited] }
      (List.replicate awaited.length 0) =
      some { table := t', callers := [.acquiring guards []] } := by
  induction awaited generalizing t taken with
  | nil =>
    cases h
    rfl
  | cons key awaited ih =>
    by_cases hheld : key ∈ t.held
    · rw [LockTable.acquireInOrder, LockTable.acquire_of_held hheld] at h
      cases h
    · rw [LockTable.acquireInOrder, LockTable.acquire_of_free hheld] at h
      have hstep : advance? timeoutMillis
          { table := t, callers := [.acquiring taken (key :: awaited)] } 0 =
          some { table := (t.reach key).grant [key]
                 callers := [.acquiring (taken ++ [key]) awaited] } := by
        rw [advance?, List.getElem?_cons_zero, Option.bind_eq_bind, Option.bind_some,
          Caller.advance?, LockTable.acquire_of_free hheld]
        rfl
      rw [List.length_cons, List.replicate_succ, run?, List.foldlM_cons, hstep]
      exact ih h

/-- Left alone, a caller takes its locks as one call for all of them does. -/
theorem run?_of_acquireAll {t t' : LockTable} {keys guards : List SeriesKey}
    (h : t.acquireAll timeoutMillis keys = (.ok guards, t')) :
    run? timeoutMillis { table := t, callers := [.arriving keys] }
      (List.replicate (LockTable.askedFor keys).length 0) =
      some { table := t', callers := [.acquiring guards []] } :=
  run?_of_acquireInOrder h

theorem ordered_start (reached : List SeriesKey) (asked : List (List SeriesKey)) :
    (start reached asked).Ordered where
  ascending c hc := by
    obtain ⟨keys, -, rfl⟩ := List.mem_map.1 hc
    exact LockTable.pairwise_askedFor keys
  held key hkey := absurd hkey List.not_mem_nil

-- The caller that took a step is the only one that may be missing afterwards.
theorem mem_set_of_ne {callers : List Caller} {i : Nat} {c c' d : Caller}
    (hc : callers[i]? = some c) (hd : d ∈ callers) (hne : d ≠ c) : d ∈ callers.set i c' := by
  obtain ⟨j, hj⟩ := List.mem_iff_getElem?.1 hd
  have hij : i ≠ j := by
    rintro rfl
    exact hne (Option.some.inj (hj.symm.trans hc))
  exact List.mem_iff_getElem?.2 ⟨j, by rw [List.getElem?_set_ne hij, hj]⟩

theorem Ordered.advance? {i : Nat} (h : s.Ordered) (hs : s.advance? timeoutMillis i = some s') :
    s'.Ordered := by
  obtain ⟨c, table, c', hc, hstep, rfl⟩ := advance?_eq_some hs
  have hmem : c ∈ s.callers := List.mem_of_getElem? hc
  have hc' : c' ∈ s.callers.set i c' :=
    List.mem_set (by rw [List.getElem?_eq_some_iff] at hc; exact hc.1) c'
  rcases Caller.advance?_eq_some hstep with
    ⟨taken, key, awaited, rfl, -, rfl, rfl⟩ | ⟨taken, rfl, rfl, rfl⟩
  · constructor
    · intro d hd
      rcases List.mem_or_eq_of_mem_set hd with hd | rfl
      · exact h.ascending d hd
      · simpa [Caller.taken, Caller.awaited] using h.ascending _ hmem
    · intro k hk
      rw [LockTable.mem_held_grant, LockTable.held_reach, List.mem_singleton] at hk
      rcases hk with hk | rfl
      · obtain ⟨d, hd, hk⟩ := h.held k hk
        by_cases heq : d = .acquiring taken (key :: awaited)
        · subst heq
          exact ⟨_, hc', List.mem_append_left [key] hk⟩
        · exact ⟨d, mem_set_of_ne hc hd heq, hk⟩
      · exact ⟨_, hc', List.mem_append_right taken (List.mem_singleton_self k)⟩
  · constructor
    · intro d hd
      rcases List.mem_or_eq_of_mem_set hd with hd | rfl
      · exact h.ascending d hd
      · exact .nil
    · intro k hk
      rw [LockTable.mem_held_release] at hk
      obtain ⟨d, hd, hkd⟩ := h.held k hk.1
      have hne : d ≠ .acquiring taken [] := by
        rintro rfl
        exact hk.2 hkd
      exact ⟨d, mem_set_of_ne hc hd hne, hkd⟩

theorem Ordered.run? (h : s.Ordered) {schedule : List Nat}
    (hs : s.run? timeoutMillis schedule = some s') : s'.Ordered := by
  induction schedule generalizing s with
  | nil =>
    obtain rfl := Option.some.inj hs
    exact h
  | cons i schedule ih =>
    obtain ⟨between, hstep, hs⟩ := Option.bind_eq_some_iff.1 hs
    exact ih (h.advance? hstep) hs

-- Of finitely many series there is one that is before none of them.
theorem exists_not_before {keys : List SeriesKey} (hne : keys ≠ []) :
    ∃ key ∈ keys, ∀ k ∈ keys, key.before k = false := by
  rcases List.eq_nil_or_concat (LockTable.askedFor keys) with hnil | ⟨front, key, heq⟩
  · obtain ⟨key, rest, rfl⟩ := List.exists_cons_of_ne_nil hne
    have hmem : key ∈ LockTable.askedFor (key :: rest) :=
      LockTable.mem_askedFor.2 List.mem_cons_self
    rw [hnil] at hmem
    exact absurd hmem List.not_mem_nil
  rw [List.concat_eq_append] at heq
  have hascending := heq ▸ LockTable.pairwise_askedFor keys
  have hmem : ∀ k, k ∈ keys ↔ k ∈ front ∨ k = key := by
    intro k
    rw [← LockTable.mem_askedFor, heq, List.mem_append, List.mem_singleton]
  refine ⟨key, (hmem key).2 (.inr rfl), fun k hk => ?_⟩
  rcases (hmem k).1 hk with hk | rfl
  · have hbefore : k.before key = true :=
      (List.pairwise_append.1 hascending).2.2 k hk key (List.mem_singleton_self key)
    by_contra hlater
    have hcycle := SeriesKey.before_trans k key k hbefore (by simpa using hlater)
    rw [SeriesKey.before_irrefl] at hcycle
    exact Bool.noConfusion hcycle
  · exact k.before_irrefl

theorem Ordered.before_awaited (h : s.Ordered) {c : Caller} (hc : c ∈ s.callers)
    {key k : SeriesKey} (hkey : key ∈ c.taken) (hk : k ∈ c.awaited) : key.before k = true :=
  (List.pairwise_append.1 (h.ascending c hc)).2.2 key hkey k hk

/-- Some caller can go on as long as not all are finished. -/
theorem Ordered.exists_advance? (h : s.Ordered) (hunfinished : ∃ c ∈ s.callers, c ≠ .finished) :
    ∃ i c s', s.callers[i]? = some c ∧ c ≠ .finished ∧ s.advance? timeoutMillis i = some s' := by
  by_contra hstuck
  -- each caller that is not finished waits for a lock that is held
  have hwaits : ∀ c ∈ s.callers, c ≠ .finished → ∃ key ∈ c.awaited.head?, key ∈ s.table.held := by
    intro c hc hne
    obtain ⟨i, hi⟩ := List.mem_iff_getElem?.1 hc
    cases hstep : c.advance? timeoutMillis s.table with
    | none => exact Caller.exists_awaited_of_advance?_eq_none hstep hne
    | some next =>
      have hadvance : s.advance? timeoutMillis i =
          some { table := next.1, callers := s.callers.set i next.2 } := by
        rw [Contention.advance?, hi, Option.bind_eq_bind, Option.bind_some, hstep]
        rfl
      exact absurd ⟨i, c, _, hi, hne, hadvance⟩ hstuck
  let waited := s.callers.filterMap (·.awaited.head?)
  have hmem : ∀ c ∈ s.callers, ∀ key ∈ c.awaited.head?, key ∈ waited :=
    fun c hc key hkey => List.mem_filterMap.2 ⟨c, hc, hkey⟩
  obtain ⟨c, hc, hne⟩ := hunfinished
  obtain ⟨key, hkey, -⟩ := hwaits c hc hne
  -- among these locks take a last one: its holder waits for a later one still
  obtain ⟨key, hkey, hlast⟩ := exists_not_before (List.ne_nil_of_mem (hmem c hc key hkey))
  obtain ⟨c, hc, hkey⟩ := List.mem_filterMap.1 hkey
  have hne : c ≠ .finished := by
    rintro rfl
    cases hkey
  obtain ⟨k, hk, hheld⟩ := hwaits c hc hne
  obtain rfl : key = k := Option.some.inj (hkey.symm.trans hk)
  obtain ⟨holder, hholder, htaken⟩ := h.held key hheld
  have hne : holder ≠ .finished := by
    rintro rfl
    exact absurd htaken List.not_mem_nil
  obtain ⟨later, hlater, -⟩ := hwaits holder hholder hne
  have hbefore := h.before_awaited hholder htaken (List.mem_of_mem_head? hlater)
  rw [hlast later (hmem holder hholder later hlater)] at hbefore
  exact Bool.noConfusion hbefore

theorem remaining_advance? {i : Nat} (h : s.advance? timeoutMillis i = some s') :
    s'.remaining < s.remaining := by
  obtain ⟨c, table, c', hc, hstep, rfl⟩ := advance?_eq_some h
  have hlt : c'.remaining < c.remaining := by
    rcases Caller.advance?_eq_some hstep with
      ⟨taken, key, awaited, rfl, -, -, rfl⟩ | ⟨taken, rfl, -, rfl⟩
    · simp [Caller.remaining]
    · simp [Caller.remaining]
  obtain ⟨hi, rfl⟩ := List.getElem?_eq_some_iff.1 hc
  obtain ⟨front, back, heq, -, hset⟩ :
      ∃ front back, s.callers = front ++ s.callers[i] :: back ∧ front.length = i ∧
        s.callers.set i c' = front ++ c' :: back := List.exists_of_set hi
  show ((s.callers.set i c').map Caller.remaining).sum < (s.callers.map Caller.remaining).sum
  rw [hset, heq]
  simp only [List.map_append, List.map_cons, List.sum_append, List.sum_cons]
  omega

/-- Locks that are taken in ascending order cannot block their callers.  In whatever order the
callers take their steps, as long as one of them is not finished there is one that can go on; none
of them waits for a lock that it holds; and each step brings the end nearer. -/
theorem advances_until_finished (timeoutMillis : Nat) (reached : List SeriesKey)
    (asked : List (List SeriesKey)) {schedule : List Nat} {s : Contention}
    (h : (start reached asked).run? timeoutMillis schedule = some s) :
    ((∃ c ∈ s.callers, c ≠ .finished) → ∃ i c s', s.callers[i]? = some c ∧ c ≠ .finished ∧
      s.advance? timeoutMillis i = some s') ∧
    (∀ c ∈ s.callers, ∀ key ∈ c.awaited, key ∉ c.taken) ∧
    ∀ i s', s.advance? timeoutMillis i = some s' → s'.remaining < s.remaining := by
  have hordered : s.Ordered := (ordered_start reached asked).run? h
  refine ⟨hordered.exists_advance?, fun c hc key hawaited htaken => ?_,
    fun _ _ => remaining_advance?⟩
  have hbefore := hordered.before_awaited hc htaken hawaited
  rw [SeriesKey.before_irrefl] at hbefore
  exact Bool.noConfusion hbefore

-- Two callers ask for the same two series in opposite orders.
def crossing : Contention :=
  start [] [[⟨"cargo", "a"⟩, ⟨"cargo", "b"⟩], [⟨"cargo", "b"⟩, ⟨"cargo", "a"⟩, ⟨"cargo", "b"⟩]]

-- The second caller is held up by the first, which still waits for its other lock.
theorem advances_until_finished_crossing :
    ∃ s, crossing.run? 20 [0] = some s ∧ s.advance? 20 1 = none ∧
      (∃ c ∈ s.callers, c ≠ .finished) ∧
      ∃ i c s', s.callers[i]? = some c ∧ c ≠ .finished ∧ s.advance? 20 i = some s' := by
  have hrun : crossing.run? 20 [0] = some
      { table := { reached := [⟨"cargo", "a"⟩], held := [⟨"cargo", "a"⟩] }
        callers := [.acquiring [⟨"cargo", "a"⟩] [⟨"cargo", "b"⟩],
          .acquiring [] [⟨"cargo", "a"⟩, ⟨"cargo", "b"⟩]] } := by decide
  exact ⟨_, hrun, by decide, by decide, (advances_until_finished 20 [] _ hrun).1 (by decide)⟩

end Contention

end BenchLedger
