import BenchLedger.Json.Writer
import BenchLedger.Proofs.Json.Spelling

/-!
# Reading written JSON

What is written on one line, or indented, is a text of the value, so it reads back.
-/

namespace BenchLedger.Json

mutual

/-- The value can be written: none of its parts is a failure of reading. -/
def Writable : Json → Prop
  | .null => True
  | .bool _ => True
  | .number lexeme => IsLexeme lexeme
  | .string _ => True
  | .unpaired => False
  | .array items => WritableItems items
  | .object members => WritableMembers members
  | .cut => False

def WritableItems : List Json → Prop
  | [] => True
  | j :: js => Writable j ∧ WritableItems js

def WritableMembers : List (String × Json) → Prop
  | [] => True
  | (_, j) :: ms => Writable j ∧ WritableMembers ms

end

mutual

theorem spells_compact : (j : Json) → Writable j → Spells j (compact j)
  | .null, _ => .null
  | .bool true, _ => .yes
  | .bool false, _ => .no
  | .number _, h => .number h
  | .string s, _ => .string s
  | .array [], _ => .emptyArray blanks_nil
  | .array (j :: js), h => .array blanks_nil (spellsItems_compact (j :: js) (by simp) h)
  | .object [], _ => .emptyObject blanks_nil
  | .object (m :: ms), h => .object blanks_nil (spellsMembers_compact (m :: ms) (by simp) h)

theorem spellsItems_compact :
    (items : List Json) → items ≠ [] → WritableItems items → SpellsItems items (compactItems items)
  | [j], _, h => by
    have hlast := SpellsItems.last (spells_compact j h.1) blanks_nil
    rwa [List.append_nil] at hlast
  | j :: j' :: js, _, h => .cons (spells_compact j h.1) blanks_nil blanks_nil
      (spellsItems_compact (j' :: js) (by simp) h.2)

theorem spellsMembers_compact : (members : List (String × Json)) → members ≠ [] →
    WritableMembers members → SpellsMembers members (compactMembers members)
  | [(k, j)], _, h => by
    have hlast :=
      SpellsMembers.last (k := k) blanks_nil blanks_nil (spells_compact j h.1) blanks_nil
    rwa [List.append_nil] at hlast
  | (k, j) :: m :: ms, _, h => by
    have hcons := SpellsMembers.cons (k := k) blanks_nil blanks_nil (spells_compact j h.1)
      blanks_nil blanks_nil (spellsMembers_compact (m :: ms) (by simp) h.2)
    simpa [compactMembers] using hcons

end

/-- What is written on one line reads back. -/
theorem read_render {j : Json} (h : Writable j) : read j.render = j :=
  read_of_spells (spells_compact j h)

theorem blanks_newline (level : Nat) : Blanks (newline level) := by
  intro c hc
  rcases List.mem_cons.1 hc with rfl | hc
  · decide
  · rw [List.eq_of_mem_replicate hc]
    decide

theorem blanks_singleton : Blanks [' '] := by
  simp [Blanks, isSpace]

mutual

theorem spells_indented : (level : Nat) → (j : Json) → Writable j → Spells j (indented level j)
  | _, .null, _ => .null
  | _, .bool true, _ => .yes
  | _, .bool false, _ => .no
  | _, .number _, h => .number h
  | _, .string s, _ => .string s
  | _, .array [], _ => .emptyArray blanks_nil
  | level, .array (j :: js), h => by
    obtain ⟨cs, heq, hcs⟩ := spellsItems_indented level (j :: js) (by simp) h
    rw [indented, List.cons_append, heq]
    exact .array (blanks_newline (level + 1)) hcs
  | _, .object [], _ => .emptyObject blanks_nil
  | level, .object (m :: ms), h => by
    obtain ⟨cs, heq, hcs⟩ := spellsMembers_indented level (m :: ms) (by simp) h
    rw [indented, List.cons_append, heq]
    exact .object (blanks_newline (level + 1)) hcs

-- The text of the items begins with the line break before the first of them and, here, takes in
-- the one behind the last.
theorem spellsItems_indented : (level : Nat) → (items : List Json) → items ≠ [] →
    WritableItems items → ∃ cs, indentedItems level items ++ newline level =
      newline (level + 1) ++ cs ∧ SpellsItems items cs
  | level, [j], _, h => ⟨_, List.append_assoc .., .last (spells_indented (level + 1) j h.1)
      (blanks_newline level)⟩
  | level, j :: j' :: js, _, h => by
    obtain ⟨cs, heq, hcs⟩ := spellsItems_indented level (j' :: js) (by simp) h.2
    refine ⟨_, ?_, .cons (spells_indented (level + 1) j h.1) blanks_nil
      (blanks_newline (level + 1)) hcs⟩
    simp [indentedItems, heq]

theorem spellsMembers_indented : (level : Nat) → (members : List (String × Json)) →
    members ≠ [] → WritableMembers members →
    ∃ cs, indentedMembers level members ++ newline level = newline (level + 1) ++ cs ∧
      SpellsMembers members cs
  | level, [(k, j)], _, h => by
    refine ⟨_, ?_, .last (k := k) blanks_nil blanks_singleton (spells_indented (level + 1) j h.1)
      (blanks_newline level)⟩
    simp [indentedMembers]
  | level, (k, j) :: m :: ms, _, h => by
    obtain ⟨cs, heq, hcs⟩ := spellsMembers_indented level (m :: ms) (by simp) h.2
    refine ⟨_, ?_, .cons (k := k) blanks_nil blanks_singleton (spells_indented (level + 1) j h.1)
      blanks_nil (blanks_newline (level + 1)) hcs⟩
    simp [indentedMembers, heq]

end

/-- What is written with indentation reads back. -/
theorem read_renderIndented {j : Json} (h : Writable j) : read j.renderIndented = j :=
  read_of_spells (spells_indented 0 j h)

end BenchLedger.Json
