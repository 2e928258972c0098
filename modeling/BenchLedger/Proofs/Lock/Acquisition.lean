import BenchLedger.Lock.Table
import BenchLedger.Proofs.Order.Arrangement

/-!
# Taking locks

What one call does to a lock table.  Several locks are asked for in the order of their series,
each once (`askedFor`).  When one of them is held the call stops there, and only the series up to
that one are reached (`upToHeld`).
-/

namespace BenchLedger

namespace SeriesKey

theorem before_iff {a b : SeriesKey} :
    a.before b = true ↔ a.tool < b.tool ∨ a.tool = b.tool ∧ a.name < b.name := by
  simp [before]

theorem before_irrefl (a : SeriesKey) : a.before a = false := by
  rw [Bool.eq_false_iff, Ne, before_iff]
  rintro (h | ⟨-, h⟩)
  · exact Std.lt_irrefl h
  · exact Std.lt_irrefl h

theorem before_trans (a b c : SeriesKey) (hab : a.before b = true) (hbc : b.before c = true) :
    a.before c = true := by
  rw [before_iff] at hab hbc ⊢
  rcases hab with hab | ⟨hab, hab'⟩ <;> rcases hbc with hbc | ⟨hbc, hbc'⟩
  · exact .inl (Std.lt_trans hab hbc)
  · exact .inl (hbc ▸ hab)
  · exact .inl (hab ▸ hbc)
  · exact .inr ⟨hab.trans hbc, Std.lt_trans hab' hbc'⟩

theorem before_connected (a b : SeriesKey) (hne : a ≠ b) (h : a.before b = false) :
    b.before a = true := by
  rw [Bool.eq_false_iff, Ne, before_iff, not_or] at h
  obtain ⟨htool, hname⟩ := h
  rw [before_iff]
  by_cases heq : a.tool = b.tool
  · have hname : ¬a.name < b.name := fun h => hname ⟨heq, h⟩
    have hne : b.name ≠ a.name := fun h => hne (by cases a; cases b; cases heq; cases h; rfl)
    exact .inr ⟨heq.symm, Std.lt_of_le_of_ne (Std.not_lt.1 hname) hne⟩
  · exact .inl (Std.lt_of_le_of_ne (Std.not_lt.1 htool) (Ne.symm heq))

end SeriesKey

namespace LockTable

variable {t : LockTable} {timeoutMillis : Nat} {key : SeriesKey} {keys : List SeriesKey}

theorem mem_reached_reach {k : SeriesKey} :
    k ∈ (t.reach key).reached ↔ k ∈ t.reached ∨ k = key := by
  unfold reach
  split
  case isTrue h =>
    have hmem : key ∈ t.reached := List.contains_iff_mem.1 h
    exact ⟨.inl, fun h => h.elim id fun h => h ▸ hmem⟩
  case isFalse => simp

theorem nodup_reached_reach (h : t.reached.Nodup) : (t.reach key).reached.Nodup := by
  unfold reach
  split
  case isTrue => exact h
  case isFalse hkey =>
    have hkey : key ∉ t.reached := fun hmem => hkey (List.contains_iff_mem.2 hmem)
    exact List.nodup_append.2 ⟨h, List.nodup_singleton key, fun a ha b hb hab =>
      hkey (List.mem_singleton.1 hb ▸ hab ▸ ha)⟩

@[simp]
theorem held_reach : (t.reach key).held = t.held := by
  unfold reach
  split <;> rfl

/-- The table after `keys` were reached, one after the other. -/
def reachEach (t : LockTable) (keys : List SeriesKey) : LockTable :=
  keys.foldl reach t

@[simp]
theorem held_reachEach : (t.reachEach keys).held = t.held := by
  unfold reachEach
  induction keys generalizing t with
  | nil => rfl
  | cons key keys ih => rw [List.foldl_cons, ih, held_reach]

theorem mem_reached_reachEach {k : SeriesKey} :
    k ∈ (t.reachEach keys).reached ↔ k ∈ t.reached ∨ k ∈ keys := by
  unfold reachEach
  induction keys generalizing t with
  | nil => simp
  | cons key keys ih => rw [List.foldl_cons, ih, mem_reached_reach, List.mem_cons, or_assoc]

theorem nodup_reached_reachEach (h : t.reached.Nodup) : (t.reachEach keys).reached.Nodup := by
  unfold reachEach
  induction keys generalizing t with
  | nil => exact h
  | cons key keys ih => exact ih (nodup_reached_reach h)

theorem mem_held_release {guards : List SeriesKey} {k : SeriesKey} :
    k ∈ (t.release guards).held ↔ k ∈ t.held ∧ k ∉ guards := by
  simp [release]

-- The table after the locks of `keys` were taken besides those that are held.
def grant (t : LockTable) (keys : List SeriesKey) : LockTable :=
  { t with held := t.held ++ keys }

theorem reach_grant : (t.grant keys).reach key = (t.reach key).grant keys := by
  by_cases hkey : t.reached.contains key = true
  · rw [reach, reach, if_pos hkey]
    exact if_pos hkey
  · rw [reach, reach, if_neg hkey]
    exact if_neg hkey

theorem reachEach_grant {granted : List SeriesKey} :
    (t.grant granted).reachEach keys = (t.reachEach keys).grant granted := by
  unfold reachEach
  induction keys generalizing t with
  | nil => rfl
  | cons key keys ih => rw [List.foldl_cons, List.foldl_cons, reach_grant, ih]

theorem grant_grant {granted : List SeriesKey} :
    (t.grant granted).grant keys = t.grant (granted ++ keys) := by
  simp [grant]

@[simp]
theorem grant_nil : t.grant [] = t := by
  simp [grant]

theorem mem_held_grant {k : SeriesKey} : k ∈ (t.grant keys).held ↔ k ∈ t.held ∨ k ∈ keys :=
  List.mem_append

-- Locks that were free before they were taken can be given back without a trace.
theorem release_grant (hfree : ∀ k ∈ keys, k ∉ t.held) : (t.grant keys).release keys = t := by
  have hheld : (t.held ++ keys).filter (fun k => !keys.contains k) = t.held := by
    rw [List.filter_append, List.filter_eq_self.2, List.filter_eq_nil_iff.2, List.append_nil]
    · intro k hk
      simp [hk]
    · intro k hk
      simpa using fun hmem => hfree k hmem hk
  simp only [grant, release, hheld]

-- Asking for one lock

theorem acquire_of_free (hfree : key ∉ t.held) :
    t.acquire timeoutMillis key = (.ok (), (t.reach key).grant [key]) := by
  have hcontains : ¬(t.reach key).held.contains key = true := by
    rw [held_reach, List.contains_iff_mem]
    exact hfree
  rw [acquire, if_neg hcontains]
  rfl

theorem acquire_of_held (hheld : key ∈ t.held) :
    t.acquire timeoutMillis key =
      (.error (.unavailable (waitMessage timeoutMillis key)), t.reach key) := by
  have hcontains : (t.reach key).held.contains key = true := by
    rw [held_reach, List.contains_iff_mem]
    exact hheld
  rw [acquire, if_pos hcontains]

-- Asking for several locks

-- Distinct series that are free are taken before the rest is looked at.
theorem acquireInOrder_append {taken front : List SeriesKey} (hnodup : front.Nodup)
    (hfree : ∀ k ∈ front, k ∉ t.held) (rest : List SeriesKey) :
    t.acquireInOrder timeoutMillis taken (front ++ rest) =
      ((t.reachEach front).grant front).acquireInOrder timeoutMillis (taken ++ front) rest := by
  induction front generalizing t taken with
  | nil => simp [reachEach]
  | cons key front ih =>
    obtain ⟨hkey, hnodup⟩ := List.nodup_cons.1 hnodup
    have hrest : ∀ k ∈ front, k ∉ ((t.reach key).grant [key]).held := by
      intro k hk hmem
      rw [mem_held_grant, held_reach, List.mem_singleton] at hmem
      rcases hmem with hmem | rfl
      · exact hfree k (List.mem_cons_of_mem key hk) hmem
      · exact hkey hk
    rw [List.cons_append, acquireInOrder, acquire_of_free (hfree key List.mem_cons_self)]
    show ((t.reach key).grant [key]).acquireInOrder timeoutMillis (taken ++ [key])
      (front ++ rest) = _
    rw [ih hnodup hrest, reachEach_grant, grant_grant, List.append_assoc]
    rfl

/-- The series of a call for several locks, each once and in ascending order. -/
def askedFor (keys : List SeriesKey) : List SeriesKey :=
  Order.sortDistinct SeriesKey.before keys

theorem pairwise_askedFor (keys : List SeriesKey) : (askedFor keys).Pairwise (·.before ·) :=
  Order.pairwise_sortDistinct SeriesKey.before_trans SeriesKey.before_connected keys

theorem nodup_askedFor (keys : List SeriesKey) : (askedFor keys).Nodup := by
  apply (pairwise_askedFor keys).imp
  rintro a b hab rfl
  rw [SeriesKey.before_irrefl] at hab
  exact Bool.noConfusion hab

theorem mem_askedFor : key ∈ askedFor keys ↔ key ∈ keys :=
  Order.mem_sortDistinct

/-- The series up to the first whose lock is held. -/
def upToHeld (t : LockTable) (keys : List SeriesKey) : List SeriesKey :=
  keys.take (keys.findIdx t.held.contains + 1)

theorem upToHeld_of_free (hfree : ∀ k ∈ keys, k ∉ t.held) : t.upToHeld keys = keys := by
  have hnone : ∀ k ∈ keys, t.held.contains k = false := fun k hk => by simpa using hfree k hk
  rw [upToHeld, List.findIdx_eq_length.2 hnone]
  exact List.take_of_length_le (Nat.le_succ _)

theorem upToHeld_of_held {front back : List SeriesKey} (hfree : ∀ k ∈ front, k ∉ t.held)
    (hheld : key ∈ t.held) : t.upToHeld (front ++ key :: back) = front ++ [key] := by
  have hnone : front.findIdx t.held.contains = front.length :=
    List.findIdx_eq_length.2 fun k hk => by simpa using hfree k hk
  have hindex : (front ++ key :: back).findIdx t.held.contains = front.length := by
    rw [List.findIdx_append, if_neg (by rw [hnone]; exact Nat.lt_irrefl _), List.findIdx_cons,
      List.contains_iff_mem.2 hheld]
    exact Nat.zero_add _
  rw [upToHeld, hindex, List.take_length_add_append]
  rfl

theorem acquireAll_of_free (hfree : ∀ k ∈ keys, k ∉ t.held) :
    t.acquireAll timeoutMillis keys =
      (.ok (askedFor keys), (t.reachEach (askedFor keys)).grant (askedFor keys)) := by
  have hfree : ∀ k ∈ askedFor keys, k ∉ t.held := fun k hk => hfree k (mem_askedFor.1 hk)
  calc t.acquireAll timeoutMillis keys
      = t.acquireInOrder timeoutMillis [] (askedFor keys ++ []) := by
        rw [List.append_nil]
        rfl
    _ = ((t.reachEach (askedFor keys)).grant (askedFor keys)).acquireInOrder timeoutMillis
          ([] ++ askedFor keys) [] := acquireInOrder_append (nodup_askedFor keys) hfree []
    _ = _ := rfl

/-- A call that meets a held lock gives back those that it took. -/
theorem acquireAll_of_held {front back : List SeriesKey}
    (hsplit : askedFor keys = front ++ key :: back) (hfree : ∀ k ∈ front, k ∉ t.held)
    (hheld : key ∈ t.held) :
    t.acquireAll timeoutMillis keys =
      (.error (.unavailable (waitMessage timeoutMillis key)), t.reachEach (front ++ [key])) := by
  have hnodup : front.Nodup := (List.nodup_append.1 (hsplit ▸ nodup_askedFor keys)).1
  have hheld : key ∈ ((t.reachEach front).grant front).held :=
    mem_held_grant.2 (.inl (by rwa [held_reachEach]))
  have hreach : (t.reachEach front).reach key = t.reachEach (front ++ [key]) := by
    simp only [reachEach, List.foldl_append, List.foldl_cons, List.foldl_nil]
  unfold acquireAll
  rw [← askedFor, hsplit, acquireInOrder_append hnodup hfree, acquireInOrder,
    acquire_of_held hheld, List.nil_append, reach_grant, hreach]
  show (_, ((t.reachEach (front ++ [key])).grant front).release front) = _
  rw [release_grant (by simpa using hfree)]

-- Either all locks of a call are free or the ascending series have a first one that is held.
theorem free_or_exists_split (t : LockTable) (keys : List SeriesKey) :
    (∀ k ∈ keys, k ∉ t.held) ∨
      ∃ front key back, askedFor keys = front ++ key :: back ∧ (∀ k ∈ front, k ∉ t.held) ∧
        key ∈ t.held := by
  cases hfind : (askedFor keys).find? t.held.contains with
  | none =>
    left
    intro k hk hheld
    exact List.find?_eq_none.1 hfind k (mem_askedFor.2 hk) (List.contains_iff_mem.2 hheld)
  | some key =>
    right
    obtain ⟨hheld, front, back, hsplit, hfront⟩ := List.find?_eq_some_iff_append.1 hfind
    refine ⟨front, key, back, hsplit, ?_, List.contains_iff_mem.1 hheld⟩
    intro k hk hmem
    simpa [hmem] using hfront k hk

end LockTable

end BenchLedger
