/-!
Splitting at a character: the pieces hold it nowhere, and joined by it they give the text back.
-/

namespace BenchLedger.Text

/-- The pieces of a text between the places where `mark` stands; there is always one. -/
def splitAt (mark : Char) : List Char → List (List Char)
  | [] => [[]]
  | c :: cs =>
    if c == mark then [] :: splitAt mark cs
    else
      match splitAt mark cs with
      | [] => [[c]]
      | piece :: pieces => (c :: piece) :: pieces

-- The text before the first `mark`, and the text behind it if there is one.
def cutAt (mark : Char) (cs : List Char) : List Char × Option (List Char) :=
  match cs.dropWhile (· != mark) with
  | [] => (cs, none)
  | _ :: rest => (cs.takeWhile (· != mark), some rest)

theorem splitAt_ne_nil (mark : Char) (cs : List Char) : splitAt mark cs ≠ [] := by
  cases cs with
  | nil => simp [splitAt]
  | cons c cs => grind [splitAt]

theorem intercalate_splitAt (mark : Char) (cs : List Char) :
    [mark].intercalate (splitAt mark cs) = cs := by
  induction cs with
  | nil => rfl
  | cons c cs ih =>
    match hs : splitAt mark cs with
    | [] => exact absurd hs (splitAt_ne_nil mark cs)
    | piece :: pieces =>
      rw [hs] at ih
      by_cases hc : c = mark
      · simpa [splitAt, hc, hs, List.intercalate] using ih
      · cases pieces <;> simp_all [splitAt, List.intercalate]

theorem not_mem_of_mem_splitAt {mark : Char} {cs piece : List Char}
    (h : piece ∈ splitAt mark cs) : mark ∉ piece := by
  induction cs generalizing piece with
  | nil => simp_all [splitAt]
  | cons c cs ih =>
    by_cases hc : c = mark
    · simp only [splitAt, hc, beq_self_eq_true, if_true, List.mem_cons] at h
      rcases h with rfl | h
      · simp
      · exact ih h
    · match hs : splitAt mark cs with
      | [] => exact absurd hs (splitAt_ne_nil mark cs)
      | first :: others =>
        simp only [splitAt, beq_iff_eq, hc, if_false, hs, List.mem_cons] at h
        rcases h with rfl | h
        · have hfirst : mark ∉ first := ih (hs ▸ List.mem_cons_self)
          simp [hfirst, Ne.symm hc]
        · exact ih (hs ▸ List.mem_cons_of_mem first h)

end BenchLedger.Text
