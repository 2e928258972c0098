import BenchLedger.Markdown.Summary
import Mathlib.Data.List.Flatten

/-!
# Reading markdown

The lines of a document and the cells of a table row, as a reader of markdown finds them.  Lines
that were joined are found again just when no line end stands within one of them, and the cells of
a row just when no bar stands within one of them that has no backslash before it.
-/

namespace BenchLedger.Markdown

def isLineEnd (c : Char) : Bool :=
  c == '\n' || c == '\r'

-- The lines of a text, the first of which was begun; `returned` behind a carriage return.
def linesFrom (line : List Char) (returned : Bool) : List Char → List (List Char)
  | [] => if line.isEmpty then [] else [line]
  | c :: cs =>
    if c == '\n' && returned then linesFrom [] false cs
    else if isLineEnd c then line :: linesFrom [] (c == '\r') cs
    else linesFrom (line ++ [c]) false cs

/-- The lines of a document. A line ends with a line feed, with a carriage return, or with both in
this order. -/
def lines (s : String) : List String :=
  (linesFrom [] false s.toList).map String.ofList

-- The pieces of a line, the first of which was begun; `escaped` behind a backslash.
def piecesFrom (piece : List Char) (escaped : Bool) : List Char → List (List Char)
  | [] => [piece]
  | c :: cs =>
    if c == '|' && !escaped then piece :: piecesFrom [] false cs
    else piecesFrom (piece ++ [c]) (c == '\\') cs

/-- The cells of a table row that begins and ends with a bar. A bar with a backslash before it
belongs to its cell. -/
def cells (line : String) : List String :=
  ((piecesFrom [] false line.toList).tail.dropLast).map String.ofList

/-- No line ends within the text. -/
def IsOneLine (s : String) : Prop :=
  ∀ c ∈ s.toList, isLineEnd c = false

/-- No bar divides the text. -/
def IsOneCell (s : String) : Prop :=
  (piecesFrom [] false s.toList).length = 1

instance (s : String) : Decidable (IsOneLine s) :=
  List.decidableBAll _ s.toList

instance (s : String) : Decidable (IsOneCell s) :=
  inferInstanceAs (Decidable (_ = _))

-- A number of lists, none of them empty, are as long as there are of them if each has one item.
theorem length_flatMap_eq_iff {α β : Type} {f : α → List β} {l : List α}
    (h : ∀ a ∈ l, f a ≠ []) : (l.flatMap f).length = l.length ↔ ∀ a ∈ l, (f a).length = 1 := by
  have hle : ∀ {l : List α}, (∀ a ∈ l, f a ≠ []) → l.length ≤ (l.flatMap f).length := by
    intro l h
    induction l with
    | nil => simp
    | cons a l ih =>
      have hpos := List.length_pos_iff.2 (h a List.mem_cons_self)
      have hrest := ih fun b hb => h b (List.mem_cons_of_mem a hb)
      simp only [List.flatMap_cons, List.length_append, List.length_cons]
      omega
  induction l with
  | nil => simp
  | cons a l ih =>
    have hpos := List.length_pos_iff.2 (h a List.mem_cons_self)
    have htail : ∀ b ∈ l, f b ≠ [] := fun b hb => h b (List.mem_cons_of_mem a hb)
    have hrest := hle htail
    rw [List.flatMap_cons, List.length_append, List.length_cons, List.forall_mem_cons]
    calc _ ↔ (f a).length = 1 ∧ (l.flatMap f).length = l.length := by omega
      _ ↔ _ := and_congr_right fun _ => ih htail

theorem flatMap_eq_map {α β : Type} {f : α → List β} {g : α → β} {l : List α}
    (h : ∀ a ∈ l, f a = [g a]) : l.flatMap f = l.map g := by
  induction l with
  | nil => rfl
  | cons a l ih =>
    obtain ⟨ha, hl⟩ := List.forall_mem_cons.1 h
    rw [List.flatMap_cons, ha, ih hl, List.map_cons, List.singleton_append]

section Lines

variable {line l rest : List Char} {returned : Bool}

-- A line feed ends what stands before it.
theorem linesFrom_append (line l rest : List Char) (returned : Bool) :
    linesFrom line returned (l ++ '\n' :: rest) =
      linesFrom line returned (l ++ ['\n']) ++ linesFrom [] false rest := by
  induction l generalizing line returned with
  | nil => cases returned <;> simp [linesFrom, isLineEnd]
  | cons c l ih =>
    simp only [List.cons_append, linesFrom]
    split
    · exact ih [] false
    split
    · rw [ih [] (c == '\r')]
      rfl
    · exact ih (line ++ [c]) false

theorem linesFrom_ne_nil (h : l ≠ [] ∨ returned = false) :
    linesFrom line returned (l ++ ['\n']) ≠ [] := by
  induction l generalizing line returned with
  | nil =>
    obtain rfl := h.resolve_left (by simp)
    simp [linesFrom, isLineEnd]
  | cons c l ih =>
    simp only [List.cons_append, linesFrom]
    split
    · exact ih (.inr rfl)
    split
    · simp
    · exact ih (.inr rfl)

theorem linesFrom_of_forall (h : ∀ c ∈ l, isLineEnd c = false) :
    linesFrom line false (l ++ ['\n']) = [line ++ l] := by
  induction l generalizing line with
  | nil => simp [linesFrom, isLineEnd]
  | cons c l ih =>
    obtain ⟨hc, hl⟩ := List.forall_mem_cons.1 h
    rw [List.cons_append, linesFrom, Bool.and_false, if_neg Bool.false_ne_true, hc,
      if_neg Bool.false_ne_true, ih hl, List.append_assoc, List.singleton_append]

-- A carriage return before the line feed would be a part of the same line end.
theorem length_linesFrom_eq_one_iff (hlast : l.getLast? ≠ some '\r') :
    (linesFrom line false (l ++ ['\n'])).length = 1 ↔ ∀ c ∈ l, isLineEnd c = false := by
  constructor
  · intro h
    induction l generalizing line with
    | nil => simp
    | cons c l ih =>
      rw [List.cons_append, linesFrom, Bool.and_false, if_neg Bool.false_ne_true] at h
      by_cases hc : isLineEnd c = true
      · rw [if_pos hc, List.length_cons] at h
        have hmore : linesFrom [] (c == '\r') (l ++ ['\n']) ≠ [] := by
          apply linesFrom_ne_nil
          cases l with
          | nil => exact .inr (by simpa using hlast)
          | cons d l => exact .inl (List.cons_ne_nil d l)
        have hpos := List.length_pos_iff.2 hmore
        omega
      · rw [if_neg hc] at h
        have hlast : l.getLast? ≠ some '\r' := by
          intro heq
          exact hlast (by rw [List.getLast?_cons, heq]; rfl)
        exact List.forall_mem_cons.2 ⟨by simpa using hc, ih hlast h⟩
  · intro h
    rw [linesFrom_of_forall h]
    rfl

end Lines

theorem lines_unlines (ls : List String) :
    lines (unlines ls) = ls.flatMap fun l => lines (l ++ "\n") := by
  induction ls with
  | nil => rfl
  | cons l ls ih =>
    have hlines : (unlines (l :: ls)).toList = l.toList ++ '\n' :: (unlines ls).toList := by
      simp [unlines]
    rw [List.flatMap_cons, ← ih, lines, hlines, linesFrom_append, List.map_append]
    simp [lines]

theorem lines_append_newline {l : String} (h : IsOneLine l) : lines (l ++ "\n") = [l] := by
  rw [lines, String.toList_append]
  show (linesFrom [] false (l.toList ++ ['\n'])).map String.ofList = _
  rw [linesFrom_of_forall h]
  simp

/-- Joined lines are found again. -/
theorem lines_unlines_of_isOneLine {ls : List String} (h : ∀ l ∈ ls, IsOneLine l) :
    lines (unlines ls) = ls := by
  rw [lines_unlines, flatMap_eq_map fun l hl => lines_append_newline (h l hl), List.map_id']

/-- If as many lines are found as were joined, none of them has a line end within. -/
theorem length_lines_unlines_eq_iff {ls : List String}
    (hlast : ∀ l ∈ ls, l.toList.getLast? ≠ some '\r') :
    (lines (unlines ls)).length = ls.length ↔ ∀ l ∈ ls, IsOneLine l := by
  have hchars : ∀ l : String, (lines (l ++ "\n")).length =
      (linesFrom [] false (l.toList ++ ['\n'])).length := by
    intro l
    rw [lines, List.length_map, String.toList_append]
    rfl
  rw [lines_unlines, length_flatMap_eq_iff]
  · refine forall₂_congr fun l hl => ?_
    rw [hchars, length_linesFrom_eq_one_iff (hlast l hl)]
    rfl
  · intro l _
    rw [← List.length_pos_iff, hchars, List.length_pos_iff]
    exact linesFrom_ne_nil (.inr rfl)

section Cells

variable {piece cs rest : List Char} {escaped : Bool}

theorem piecesFrom_ne_nil : piecesFrom piece escaped cs ≠ [] := by
  induction cs generalizing piece escaped with
  | nil => simp [piecesFrom]
  | cons c cs ih =>
    rw [piecesFrom]
    split
    · simp
    · exact ih

-- A bar behind a blank ends what stands before it.
theorem piecesFrom_append (piece cs rest : List Char) (escaped : Bool) :
    piecesFrom piece escaped (cs ++ ' ' :: '|' :: rest) =
      piecesFrom piece escaped (cs ++ [' ']) ++ piecesFrom [] false rest := by
  induction cs generalizing piece escaped with
  | nil => simp [piecesFrom]
  | cons c cs ih =>
    simp only [List.cons_append, piecesFrom]
    split
    · rw [ih]
      rfl
    · exact ih _ _

theorem length_piecesFrom_congr (piece piece' cs : List Char) (escaped : Bool) :
    (piecesFrom piece escaped cs).length = (piecesFrom piece' escaped cs).length := by
  induction cs generalizing piece piece' escaped with
  | nil => rfl
  | cons c cs ih =>
    simp only [piecesFrom]
    split
    · rfl
    · exact ih _ _ _

-- A blank behind a piece does not divide it.
theorem length_piecesFrom_blank (piece cs : List Char) (escaped : Bool) :
    (piecesFrom piece escaped (cs ++ [' '])).length = (piecesFrom piece escaped cs).length := by
  induction cs generalizing piece escaped with
  | nil => simp [piecesFrom]
  | cons c cs ih =>
    simp only [List.cons_append, piecesFrom]
    split
    · rw [List.length_cons, List.length_cons, ih]
    · exact ih _ _

theorem eq_of_length_piecesFrom (h : (piecesFrom piece escaped cs).length = 1) :
    piecesFrom piece escaped cs = [piece ++ cs] := by
  induction cs generalizing piece escaped with
  | nil => simp [piecesFrom]
  | cons c cs ih =>
    rw [piecesFrom] at h ⊢
    split at h
    · rw [List.length_cons, Nat.add_eq_right, List.length_eq_zero_iff] at h
      exact absurd h piecesFrom_ne_nil
    · rw [if_neg ‹_›, ih h, List.append_assoc, List.singleton_append]

end Cells

/-- A text with a blank at both ends, as it stands in a row. -/
def padded (s : String) : String :=
  " " ++ s ++ " "

-- The cells that a text takes up in a row.
def cellsWithin (s : String) : List String :=
  (piecesFrom [] false (padded s).toList).map String.ofList

theorem length_cellsWithin (s : String) :
    (cellsWithin s).length = (piecesFrom [] false s.toList).length := by
  have hchars : (padded s).toList = ' ' :: (s.toList ++ [' ']) := by simp [padded]
  rw [cellsWithin, List.length_map, hchars, piecesFrom]
  show (piecesFrom [' '] false (s.toList ++ [' '])).length = _
  rw [length_piecesFrom_blank, length_piecesFrom_congr]

theorem cellsWithin_of_isOneCell {s : String} (h : IsOneCell s) : cellsWithin s = [padded s] := by
  have hlength : (piecesFrom [] false (padded s).toList).length = 1 := by
    have hwithin := (length_cellsWithin s).trans h
    rwa [cellsWithin, List.length_map] at hwithin
  rw [cellsWithin, eq_of_length_piecesFrom hlength]
  simp

theorem row_singleton (c : String) : row [c] = "|" ++ padded c ++ "|" := by
  rw [← String.toList_inj]
  simp [row, padded]

theorem row_cons_cons (c d : String) (cs : List String) :
    row (c :: d :: cs) = "|" ++ padded c ++ row (d :: cs) := by
  rw [row, String.intercalate_cons_cons, row, ← String.toList_inj]
  simp only [padded, String.toList_append, List.append_assoc]
  rfl

theorem toList_row {cs : List String} (hne : cs ≠ []) :
    (row cs).toList = '|' :: cs.flatMap fun c => (padded c).toList ++ ['|'] := by
  induction cs with
  | nil => exact absurd rfl hne
  | cons c cs ih =>
    cases cs with
    | nil => simp [row_singleton]
    | cons d cs =>
      rw [row_cons_cons, String.toList_append, String.toList_append, ih (List.cons_ne_nil d cs)]
      simp

/-- The texts of a row take up the cells of the row. -/
theorem cells_row {cs : List String} (hne : cs ≠ []) : cells (row cs) = cs.flatMap cellsWithin := by
  have hpieces : ∀ cs : List String,
      piecesFrom [] false (cs.flatMap fun c => (padded c).toList ++ ['|']) =
        (cs.flatMap fun c => piecesFrom [] false (padded c).toList) ++ [[]] := by
    intro cs
    induction cs with
    | nil => rfl
    | cons c cs ih =>
      have hpadded : (padded c).toList = (' ' :: c.toList) ++ [' '] := by simp [padded]
      rw [List.flatMap_cons, List.flatMap_cons, List.append_assoc _ _ [[]], ← ih, hpadded,
        ← piecesFrom_append]
      simp
  rw [cells, toList_row hne, piecesFrom, if_pos (by rfl), List.tail_cons, hpieces,
    List.dropLast_concat, List.map_flatMap]
  rfl

theorem length_cells_row_eq_iff {cs : List String} (hne : cs ≠ []) :
    (cells (row cs)).length = cs.length ↔ ∀ c ∈ cs, IsOneCell c := by
  have hwithin : ∀ c ∈ cs, cellsWithin c ≠ [] := by
    intro c _
    rw [← List.length_pos_iff, length_cellsWithin]
    exact List.length_pos_iff.2 piecesFrom_ne_nil
  rw [cells_row hne, length_flatMap_eq_iff hwithin]
  exact forall₂_congr fun c _ => by rw [length_cellsWithin, IsOneCell]

/-- A row of undivided texts has these texts for its cells. -/
theorem cells_row_of_isOneCell {cs : List String} (hne : cs ≠ []) (h : ∀ c ∈ cs, IsOneCell c) :
    cells (row cs) = cs.map padded := by
  rw [cells_row hne, flatMap_eq_map fun c hc => cellsWithin_of_isOneCell (h c hc)]

end BenchLedger.Markdown
