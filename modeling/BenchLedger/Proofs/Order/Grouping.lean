import Mathlib.Data.List.Nodup
import Mathlib.Data.List.Perm.Basic

/-!
# Lists in groups

The elements of a list, taken together by a key, are the elements of the list: the groups of some
keys leave nothing out if the keys are all there, and take nothing twice if each is there once.
-/

namespace BenchLedger.Order

variable {α κ : Type}

theorem nodup_eraseDups [BEq α] [LawfulBEq α] : (l : List α) → l.eraseDups.Nodup
  | [] => List.nodup_nil
  | a :: l => by
    rw [List.eraseDups_cons, List.nodup_cons]
    refine ⟨fun hmem => ?_, nodup_eraseDups (l.filter fun b => !b == a)⟩
    -- what equals the first element was taken out of the rest
    have hrest := (List.mem_filter.1 (List.mem_eraseDups.1 hmem)).2
    simp at hrest
termination_by l => l.length
decreasing_by exact Nat.lt_succ_of_le (List.length_filter_le _ l)

variable [DecidableEq κ]

/-- The groups of distinct keys make up the part of the list that has these keys. -/
theorem flatMap_filter_perm (key : α → κ) {keys : List κ} (hnodup : keys.Nodup) (l : List α) :
    (keys.flatMap fun k => l.filter (key · = k)).Perm (l.filter (key · ∈ keys)) := by
  induction keys with
  | nil => simp
  | cons k keys ih =>
    obtain ⟨hk, hnodup⟩ := List.nodup_cons.1 hnodup
    have hfirst : (l.filter (key · ∈ k :: keys)).filter (key · = k) = l.filter (key · = k) := by
      rw [List.filter_filter]
      apply List.filter_congr
      intro a _
      by_cases ha : key a = k <;> simp [ha]
    have hrest : (l.filter (key · ∈ k :: keys)).filter (fun a => !decide (key a = k)) =
        l.filter (key · ∈ keys) := by
      rw [List.filter_filter]
      apply List.filter_congr
      intro a _
      by_cases ha : key a = k <;> simp [ha, hk]
    have hsplit := List.filter_append_perm (fun a => decide (key a = k))
      (l.filter (key · ∈ k :: keys))
    rw [hfirst, hrest] at hsplit
    rw [List.flatMap_cons]
    exact ((ih hnodup).append_left _).trans hsplit

theorem flatMap_filter_perm_of_mem (key : α → κ) {keys : List κ} (hnodup : keys.Nodup)
    {l : List α} (hmem : ∀ a ∈ l, key a ∈ keys) :
    (keys.flatMap fun k => l.filter (key · = k)).Perm l := by
  have hall : l.filter (key · ∈ keys) = l :=
    List.filter_eq_self.2 fun a ha => decide_eq_true (hmem a ha)
  have hperm := flatMap_filter_perm key hnodup l
  rwa [hall] at hperm

end BenchLedger.Order
