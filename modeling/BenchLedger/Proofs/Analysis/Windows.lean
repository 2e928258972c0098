import BenchLedger.Proofs.Analysis.Verdicts
import BenchLedger.Proofs.Order.Arrangement
import Mathlib.Data.List.DropRight

/-!
# Verdicts and their windows

The record of a commit is judged against the records right before it.  A record that comes in later
stands behind all those that are not after it, so it changes a verdict only if it is sorted into the
window of that verdict, or before it while the window is not full.
-/

namespace BenchLedger

/-- The place at which a commit is found: `candidate` is the first record of the commit. -/
structure Series.SplitsAt (s : Series) (commitId : String) (before : List Measurement)
    (candidate : Measurement) (after : List Measurement) : Prop where
  records : s.records = before ++ candidate :: after
  found : candidate.commit.id = commitId
  first : ∀ m ∈ before, m.commit.id ≠ commitId

namespace Series

@[simp]
theorem ofRecords_key (key : SeriesKey) (l : List Measurement) : (ofRecords key l).key = key := rfl

variable {s : Series} {commitId : String} {before after : List Measurement}
  {candidate : Measurement}

-- Every commit of a series is found somewhere in it.
theorem exists_splitsAt {m : Measurement} (hm : m ∈ s.records) :
    ∃ before candidate after, s.SplitsAt m.commit.id before candidate after := by
  cases hfound : s.records.find? (·.commit.id == m.commit.id) with
  | none => exact absurd (beq_self_eq_true m.commit.id) (List.find?_eq_none.1 hfound m hm)
  | some candidate =>
    obtain ⟨hid, before, after, hsplit, hfirst⟩ := List.find?_eq_some_iff_append.1 hfound
    exact ⟨before, candidate, after, hsplit, eq_of_beq hid, fun b hb => by simpa using hfirst b hb⟩

namespace SplitsAt

theorem position (h : s.SplitsAt commitId before candidate after) :
    s.position? commitId = some before.length := by
  have hbefore : before.findIdx? (·.commit.id == commitId) = none := by
    simpa [List.findIdx?_eq_none_iff] using h.first
  simp [position?, h.records, List.findIdx?_append, hbefore, List.findIdx?_cons, h.found]

theorem getElem (h : s.SplitsAt commitId before candidate after) :
    s.records[before.length]? = some candidate := by
  rw [h.records, List.getElem?_append_right (Nat.le_refl _), Nat.sub_self]
  rfl

theorem windowBefore (h : s.SplitsAt commitId before candidate after) (window : Nat) :
    s.windowBefore before.length window = before.rtake window := by
  have hle : before.length ≤ s.size := by
    simp [size, h.records]
  have htake : s.records.take before.length = before := by
    rw [h.records, List.take_left]
  simp only [Series.windowBefore, Nat.min_eq_left hle, htake, List.rtake]

end SplitsAt

end Series

namespace Analysis

variable {settings : Settings} {s : Series} {commitId : String}
  {before after : List Measurement} {candidate : Measurement}

/-- A commit is judged by its first record against the records right before that one. -/
theorem assess_of_splitsAt (h : s.SplitsAt commitId before candidate after) :
    assess settings s commitId =
      (Baseline.ofRecords (Policy.resolve settings s.key).statistic
          (before.rtake (Policy.resolve settings s.key).windowSize) >>= fun b =>
        evaluate settings candidate b (Policy.resolve settings s.key).thresholdRatio) := by
  simp only [assess, h.position, h.getElem, baselineAt, h.windowBefore]

end Analysis

/-- The record `r` that comes in later is sorted behind `candidate`; or it is of another commit and
in front of a full window, which holds the last `window` of the records `before`. -/
def Measurement.SortsOutside (r : Measurement) (window : Nat) (before : List Measurement)
    (candidate : Measurement) : Prop :=
  candidate.instant ≤ r.instant ∨
    window ≤ before.length ∧
      (∀ earliest ∈ (before.rtake window).head?, r.instant < earliest.instant) ∧
      r.commit.id ≠ candidate.commit.id

namespace Measurement.SortsOutside

variable {r candidate : Measurement} {window : Nat} {before before' : List Measurement}

-- More records before a full window do not matter.
theorem grow (h : r.SortsOutside window before candidate)
    (hwindow : before'.rtake window = before.rtake window)
    (hlength : before.length ≤ before'.length) : r.SortsOutside window before' candidate := by
  refine h.imp_right fun ⟨hfull, hearliest, hid⟩ => ⟨Nat.le_trans hfull hlength, ?_, hid⟩
  rwa [hwindow]

end Measurement.SortsOutside

-- A window reads nothing of what stands before its records.
private theorem rtake_append_of_le {α : Type} {window : Nat} (front : List α) {back : List α}
    (h : window ≤ back.length) : (front ++ back).rtake window = back.rtake window := by
  simp only [List.rtake_eq_reverse_take_reverse, List.reverse_append]
  rw [List.take_append_of_le_length (by rwa [List.length_reverse])]

private theorem exists_head_rtake {α : Type} {window : Nat} {front back : List α}
    (hshort : back.length < window) (hfull : window ≤ (front ++ back).length) :
    ∃ a ∈ ((front ++ back).rtake window).head?, a ∈ front := by
  rw [List.length_append] at hfull
  have hlt : front.length + back.length - window < front.length := by omega
  refine ⟨front[front.length + back.length - window], ?_, List.getElem_mem hlt⟩
  rw [List.rtake, List.head?_drop, List.length_append, List.getElem?_append_left hlt,
    List.getElem?_eq_getElem hlt]
  rfl

-- The record is sorted into those before the candidate, and in front of the window.
private theorem rtake_insert {r : Measurement} {window : Nat}
    {front back : List Measurement} (hfront : ∀ m ∈ front, m.instant ≤ r.instant)
    (hfull : window ≤ (front ++ back).length)
    (hearliest : ∀ earliest ∈ ((front ++ back).rtake window).head?, r.instant < earliest.instant) :
    (front ++ r :: back).rtake window = (front ++ back).rtake window := by
  have hle : window ≤ back.length := by
    by_contra hshort
    obtain ⟨m, hm, hmem⟩ := exists_head_rtake (Nat.lt_of_not_le hshort) hfull
    exact Int.not_lt.2 (hfront m hmem) (hearliest m hm)
  rw [List.append_cons, rtake_append_of_le _ hle, rtake_append_of_le _ hle]

-- An element of a list that is cut in two stands in the first part or in the second.
private theorem side_of_cut {α : Type} {before after front back : List α} {a : α}
    (h : before ++ a :: after = front ++ back) :
    (∃ late, front = before ++ a :: late ∧ after = late ++ back) ∨
      ∃ early, before = front ++ early ∧ back = early ++ a :: after := by
  obtain ⟨late, rfl, hlate⟩ | ⟨early, rfl, rfl⟩ := List.append_eq_append_iff.1 h
  · obtain ⟨rfl, rfl⟩ | ⟨late, rfl, rfl⟩ := List.cons_eq_append_iff.1 hlate
    · exact .inr ⟨[], by simp, rfl⟩
    · exact .inl ⟨late, rfl, rfl⟩
  · exact .inr ⟨early, rfl, rfl⟩

namespace Series.SplitsAt

variable {key : SeriesKey} {l : List Measurement} {commitId : String}
  {before after : List Measurement} {candidate r : Measurement} {window : Nat}

/-- What is sorted outside the window of a candidate leaves both as they are. -/
theorem append_singleton (h : (Series.ofRecords key l).SplitsAt commitId before candidate after)
    (hr : r.SortsOutside window before candidate) :
    ∃ before' after',
      (Series.ofRecords key (l ++ [r])).SplitsAt commitId before' candidate after' ∧
        before'.rtake window = before.rtake window ∧ before.length ≤ before'.length := by
  have hsorted := Order.stablySorted_stableSort Measurement.instant l
  obtain ⟨front, back, hsplit, hfront, hback, hinsert⟩ := hsorted.exists_insert r
  have hrecords : before ++ candidate :: after = front ++ back := h.records.symm.trans hsplit
  have hnew : (Series.ofRecords key (l ++ [r])).records = front ++ r :: back :=
    (Order.stablySorted_stableSort Measurement.instant (l ++ [r])).unique hinsert
  obtain ⟨late, rfl, rfl⟩ | ⟨early, rfl, rfl⟩ := side_of_cut hrecords
  · -- the new record stands behind the candidate
    refine ⟨before, late ++ r :: back, ⟨?_, h.found, h.first⟩, rfl, Nat.le_refl _⟩
    rw [hnew, List.append_assoc, List.cons_append]
  · -- the new record stands before the candidate, hence before its window
    have hbefore : ¬candidate.instant ≤ r.instant := hback candidate (by simp)
    obtain ⟨hfull, hearliest, hid⟩ := hr.resolve_left hbefore
    refine ⟨front ++ r :: early, after, ⟨?_, h.found, ?_⟩, rtake_insert hfront hfull hearliest, ?_⟩
    · rw [hnew, List.append_assoc, List.cons_append]
    · have hfirst := h.first
      simp only [List.forall_mem_append, List.forall_mem_cons] at hfirst ⊢
      exact ⟨hfirst.1, h.found ▸ hid, hfirst.2⟩
    · simp

theorem append {more : List Measurement}
    (h : (Series.ofRecords key l).SplitsAt commitId before candidate after)
    (hmore : ∀ r ∈ more, r.SortsOutside window before candidate) :
    ∃ before' after',
      (Series.ofRecords key (l ++ more)).SplitsAt commitId before' candidate after' ∧
        before'.rtake window = before.rtake window := by
  induction more generalizing l before after with
  | nil => exact ⟨before, after, by rwa [List.append_nil], rfl⟩
  | cons r more ih =>
    obtain ⟨hr, hmore⟩ := List.forall_mem_cons.1 hmore
    obtain ⟨before', after', hstep, hwindow, hlength⟩ := h.append_singleton hr
    obtain ⟨before'', after'', hrun, hwindow'⟩ :=
      ih hstep fun r' hr' => (hmore r' hr').grow hwindow hlength
    rw [List.append_cons]
    exact ⟨before'', after'', hrun, hwindow'.trans hwindow⟩

end Series.SplitsAt

namespace Analysis

/-- Records that come in later and are sorted outside the window of a verdict do not change it, nor
do they change why there is none. -/
theorem assess_append_of_sortsOutside {settings : Settings} {key : SeriesKey}
    {l more before after : List Measurement} {commitId : String} {candidate : Measurement}
    (hsplit : (Series.ofRecords key l).SplitsAt commitId before candidate after)
    (hmore : ∀ r ∈ more,
      r.SortsOutside (Policy.resolve settings key).windowSize before candidate) :
    assess settings (.ofRecords key (l ++ more)) commitId =
      assess settings (.ofRecords key l) commitId := by
  obtain ⟨before', after', hsplit', hwindow⟩ := hsplit.append hmore
  rw [assess_of_splitsAt hsplit', assess_of_splitsAt hsplit, Series.ofRecords_key,
    Series.ofRecords_key, hwindow]

private def committedAt (commitId : String) (millis : Int) : Measurement :=
  { (default : Measurement) with
    commit := { (default : Commit) with
      id := commitId
      timestamp := .utc ((Instant.ofMillis? millis).getD .epoch) } }

-- One record comes in for a time before the window, and one for the time of the candidate.
theorem assess_kept_beside_full_window :
    let l := [committedAt "c2" 20, committedAt "c1" 10, committedAt "c3" 30]
    let more := [committedAt "c0" 0, committedAt "c4" 30]
    (Series.ofRecords ⟨"cargo", "parse"⟩ l).SplitsAt "c3"
        [committedAt "c1" 10, committedAt "c2" 20] (committedAt "c3" 30) [] ∧
      assess { windowSize := 2 } (.ofRecords ⟨"cargo", "parse"⟩ (l ++ more)) "c3" =
        assess { windowSize := 2 } (.ofRecords ⟨"cargo", "parse"⟩ l) "c3" := by
  intro l more
  have hsplit : (Series.ofRecords ⟨"cargo", "parse"⟩ l).SplitsAt "c3"
      [committedAt "c1" 10, committedAt "c2" 20] (committedAt "c3" 30) [] :=
    ⟨by decide, by decide, by decide⟩
  refine ⟨hsplit, assess_append_of_sortsOutside hsplit ?_⟩
  intro r hr
  rcases List.mem_pair.1 hr with rfl | rfl
  · exact .inr ⟨by decide, by decide, by decide⟩
  · exact .inl (by decide)

end Analysis

end BenchLedger
