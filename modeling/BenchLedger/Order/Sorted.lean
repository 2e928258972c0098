/-!
Stable sorting by insertion, and sorted lists without repetitions. A stable sort keeps the order of
elements that neither comes before the other.
-/

namespace BenchLedger.Order

variable {α : Type}

-- Puts `a` before the first element that may stand behind it.
def insertBefore (le : α → α → Bool) (a : α) : List α → List α
  | [] => [a]
  | b :: l => if le a b then a :: b :: l else b :: insertBefore le a l

def stableSort (le : α → α → Bool) : List α → List α
  | [] => []
  | a :: l => insertBefore le a (stableSort le l)

theorem insertBefore_perm (le : α → α → Bool) (a : α) (l : List α) :
    (insertBefore le a l).Perm (a :: l) := by
  induction l with
  | nil => exact .refl _
  | cons b l ih =>
    rw [insertBefore]
    split
    · exact .refl _
    · exact (ih.cons b).trans (.swap a b l)

theorem stableSort_perm (le : α → α → Bool) (l : List α) : (stableSort le l).Perm l := by
  induction l with
  | nil => exact .refl _
  | cons a l ih => exact (insertBefore_perm le a _).trans (ih.cons a)

theorem pairwise_insertBefore {le : α → α → Bool}
    (total : ∀ a b, le a b = false → le b a = true)
    (trans : ∀ a b c, le a b = true → le b c = true → le a c = true)
    (a : α) {l : List α} (h : l.Pairwise (le · ·)) :
    (insertBefore le a l).Pairwise (le · ·) := by
  induction l with
  | nil => simp [insertBefore]
  | cons b l ih =>
    rw [List.pairwise_cons] at h
    rw [insertBefore]
    split
    case isTrue hab =>
      refine List.Pairwise.cons ?_ (List.pairwise_cons.2 h)
      intro c hc
      rcases List.mem_cons.1 hc with rfl | hc
      · exact hab
      · exact trans a b c hab (h.1 c hc)
    case isFalse hab =>
      refine List.Pairwise.cons ?_ (ih h.2)
      intro c hc
      rcases List.mem_cons.1 ((insertBefore_perm le a l).mem_iff.1 hc) with rfl | hc
      · exact total c b (by simpa using hab)
      · exact h.1 c hc

theorem pairwise_stableSort {le : α → α → Bool}
    (total : ∀ a b, le a b = false → le b a = true)
    (trans : ∀ a b c, le a b = true → le b c = true → le a c = true) (l : List α) :
    (stableSort le l).Pairwise (le · ·) := by
  induction l with
  | nil => exact .nil
  | cons a l ih => exact pairwise_insertBefore total trans a ih

-- Puts `a` at its place unless it is there already.
def insertDistinct [DecidableEq α] (lt : α → α → Bool) (a : α) : List α → List α
  | [] => [a]
  | b :: l =>
    if a = b then b :: l
    else if lt a b then a :: b :: l
    else b :: insertDistinct lt a l

/-- The elements of `l`, each once, in ascending order. -/
def sortDistinct [DecidableEq α] (lt : α → α → Bool) (l : List α) : List α :=
  l.foldr (insertDistinct lt) []

theorem mem_insertDistinct [DecidableEq α] {lt : α → α → Bool} {a x : α} {l : List α} :
    x ∈ insertDistinct lt a l ↔ x = a ∨ x ∈ l := by
  induction l with
  | nil => simp [insertDistinct]
  | cons b l ih =>
    rw [insertDistinct]
    split
    · simp_all
    · split
      · simp
      · simp [ih, or_left_comm]

@[simp]
theorem mem_sortDistinct [DecidableEq α] {lt : α → α → Bool} {x : α} {l : List α} :
    x ∈ sortDistinct lt l ↔ x ∈ l := by
  induction l with
  | nil => simp [sortDistinct]
  | cons a l ih => simpa [sortDistinct, mem_insertDistinct] using or_congr_right ih

-- Texts in the order of their code points, each once.
def sortTexts (texts : List String) : List String :=
  sortDistinct (fun a b => decide (a < b)) texts

end BenchLedger.Order
