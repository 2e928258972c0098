import BenchLedger.Json.Reader
import BenchLedger.Json.Writer
import BenchLedger.Proofs.Decimal.Digits

/-!
# Texts of JSON values

The texts that spell a value, with blanks wherever the grammar has room for them.  A reader finds
the value in each of its texts: strings come back character by character; in a number only the
place where it ends is at stake; and the fuel of the reader, twice the length of the text, covers
every item and member of every container.
-/

namespace BenchLedger.Json

theorem isSurrogate_toNat (c : Char) :
    isHighSurrogate c.toNat = false ∧ isLowSurrogate c.toNat = false := by
  have hvalid : c.toNat < 0xD800 ∨ (0xDFFF < c.toNat ∧ c.toNat < 0x110000) := c.valid
  unfold isHighSurrogate isLowSurrogate
  simp only [Bool.and_eq_false_iff, decide_eq_false_iff_not]
  omega

-- No character is a surrogate, so the code points of a text are its characters again.
theorem pairUp_map_toNat (cs : List Char) : pairUp (cs.map Char.toNat) = some cs := by
  induction cs with
  | nil => rfl
  | cons c cs ih =>
    have hc := isSurrogate_toNat c
    cases cs with
    | nil => simp [pairUp, hc.1, hc.2, Char.ofNat_toNat]
    | cons d ds =>
      have hd := isSurrogate_toNat d
      rw [List.map_cons] at ih
      simp [pairUp, hc.1, hc.2, hd.2, ih, Char.ofNat_toNat]

private theorem hexUnit?_control {n : Nat} (h : n < 32) :
    hexUnit? '0' '0' (hexDigit (n / 16)) (hexDigit (n % 16)) = some n := by
  revert n
  decide

-- The three ways in which a character is written.
private theorem escapeChar_cases (c : Char) :
    (∃ e, escapeChar c = ['\\', e] ∧ e ≠ 'u' ∧ shortEscape? e = some c) ∨
    (c.toNat < 32 ∧
      escapeChar c = ['\\', 'u', '0', '0', hexDigit (c.toNat / 16), hexDigit (c.toNat % 16)]) ∨
    (c ≠ '"' ∧ c ≠ '\\' ∧ ¬c.toNat < 32 ∧ escapeChar c = [c]) := by
  by_cases hshort : c ∈ ['"', '\\', '\x08', '\x0c', '\n', '\r', '\t']
  · simp only [List.mem_cons, List.not_mem_nil, or_false] at hshort
    left
    rcases hshort with rfl | rfl | rfl | rfl | rfl | rfl | rfl
    all_goals exact ⟨_, rfl, by decide, rfl⟩
  simp only [List.mem_cons, List.not_mem_nil, or_false, not_or] at hshort
  obtain ⟨hquote, hslash, h⟩ := hshort
  right
  unfold escapeChar
  rw [if_neg hquote, if_neg hslash, if_neg h.1, if_neg h.2.1, if_neg h.2.2.1, if_neg h.2.2.2.1,
    if_neg h.2.2.2.2]
  by_cases hcontrol : c.toNat < 32
  · exact .inl ⟨hcontrol, if_pos hcontrol⟩
  · exact .inr ⟨hquote, hslash, hcontrol, if_neg hcontrol⟩

theorem readUnits_escapeChar (c : Char) {cs rest : List Char} {units : List Nat}
    (h : readUnits cs = some (units, rest)) :
    readUnits (escapeChar c ++ cs) = some (c.toNat :: units, rest) := by
  rcases escapeChar_cases c with ⟨e, heq, hu, he⟩ | ⟨hcontrol, heq⟩ | ⟨hquote, hslash, hplain, heq⟩
  · rw [heq, List.cons_append, List.cons_append, List.nil_append, readUnits]
    -- the equation for short escapes asks that this is not one with four digits
    · rw [he, h]
    · intro _ _ _ _ _ hescape
      exact absurd hescape hu
  · rw [heq]
    simp only [List.cons_append, List.nil_append]
    rw [readUnits, hexUnit?_control hcontrol, h]
  · rw [heq, List.cons_append, List.nil_append, readUnits]
    · simp [hplain, hslash, h]
    · exact hquote
    · intro _ _ _ _ _ hescape
      exact absurd hescape hslash
    · intro _ _ hescape
      exact absurd hescape hslash

theorem readUnits_flatMap_escapeChar (cs rest : List Char) :
    readUnits (cs.flatMap escapeChar ++ '"' :: rest) = some (cs.map Char.toNat, rest) := by
  induction cs with
  | nil => rfl
  | cons c cs ih =>
    rw [List.flatMap_cons, List.append_assoc, readUnits_escapeChar c ih, List.map_cons]

theorem readString_quoted (s : String) (rest : List Char) :
    ∃ tail, quoted s ++ rest = '"' :: tail ∧ readString tail = some (.string s, rest) := by
  refine ⟨s.toList.flatMap escapeChar ++ '"' :: rest, by simp [quoted], ?_⟩
  simp [readString, readUnits_flatMap_escapeChar, pairUp_map_toNat]

/-- No number goes on with this text. -/
def EndsLexeme (rest : List Char) : Prop :=
  ∀ c ∈ rest.head?, c.isDigit = false ∧ c ≠ '.' ∧ c ≠ 'e' ∧ c ≠ 'E'

theorem endsLexeme_nil : EndsLexeme [] := by
  simp [EndsLexeme]

theorem endsLexeme_cons {c : Char} (h : c = ',' ∨ c = ']' ∨ c = '\x7d') (rest : List Char) :
    EndsLexeme (c :: rest) := by
  unfold EndsLexeme
  rw [List.head?_cons]
  rintro d (_ | _)
  rcases h with rfl | rfl | rfl <;> decide

/-- The characters of a number as a reader finds them, whatever follows the number. -/
def IsLexeme (lexeme : List Char) : Prop :=
  lexeme.head?.any isNumberStart = true ∧
    ∀ rest, EndsLexeme rest → readNumber (lexeme ++ rest) = some (lexeme, rest)

/-- The first character of a value's text. -/
def startsValue (c : Char) : Bool :=
  c == 'n' || c == 't' || c == 'f' || c == '"' || c == '[' || c == '\x7b' || isNumberStart c

theorem isSpace_of_startsValue {c : Char} (h : startsValue c = true) : isSpace c = false := by
  rw [← Bool.not_eq_true]
  intro hspace
  simp only [isSpace, Bool.or_eq_true, beq_iff_eq] at hspace
  rcases hspace with ((rfl | rfl) | rfl) | rfl <;> revert h <;> decide

/-- A text of nothing but blanks. -/
def Blanks (w : List Char) : Prop :=
  ∀ c ∈ w, isSpace c = true

theorem blanks_nil : Blanks [] := by
  simp [Blanks]

theorem skipSpace_cons {c : Char} (h : isSpace c = false) (cs : List Char) :
    skipSpace (c :: cs) = c :: cs := by
  simp [skipSpace, h]

theorem skipSpace_append {w : List Char} (hw : Blanks w) (cs : List Char) :
    skipSpace (w ++ cs) = skipSpace cs :=
  List.dropWhile_append_of_pos hw

theorem skipSpace_append_cons {w : List Char} {c : Char} (hw : Blanks w) (h : isSpace c = false)
    (cs : List Char) : skipSpace (w ++ c :: cs) = c :: cs := by
  rw [skipSpace_append hw, skipSpace_cons h]

-- Between a value and the mark behind it there may be blanks.
theorem endsLexeme_append {w : List Char} {c : Char} (hw : Blanks w)
    (h : c = ',' ∨ c = ']' ∨ c = '\x7d') (rest : List Char) : EndsLexeme (w ++ c :: rest) := by
  cases w with
  | nil => exact endsLexeme_cons h rest
  | cons d w =>
    have hd : isSpace d = true := hw d List.mem_cons_self
    simp only [isSpace, Bool.or_eq_true, beq_iff_eq] at hd
    unfold EndsLexeme
    rw [List.cons_append, List.head?_cons]
    rintro e (_ | _)
    rcases hd with ((rfl | rfl) | rfl) | rfl <;> decide

mutual

/-- The texts of a value. -/
inductive Spells : Json → List Char → Prop
  | null : Spells .null "null".toList
  | yes : Spells (.bool true) "true".toList
  | no : Spells (.bool false) "false".toList
  | number {lexeme : List Char} (h : IsLexeme lexeme) : Spells (.number lexeme) lexeme
  | string (s : String) : Spells (.string s) (quoted s)
  | emptyArray {w : List Char} (hw : Blanks w) : Spells (.array []) ('[' :: (w ++ [']']))
  | array {items : List Json} {w cs : List Char} (hw : Blanks w) (h : SpellsItems items cs) :
      Spells (.array items) ('[' :: (w ++ cs ++ [']']))
  | emptyObject {w : List Char} (hw : Blanks w) :
      Spells (.object []) ('\x7b' :: (w ++ ['\x7d']))
  | object {members : List (String × Json)} {w cs : List Char} (hw : Blanks w)
      (h : SpellsMembers members cs) : Spells (.object members) ('\x7b' :: (w ++ cs ++ ['\x7d']))

/-- The texts of one or more items, from the first character of the first. -/
inductive SpellsItems : List Json → List Char → Prop
  | last {j : Json} {cs w : List Char} (h : Spells j cs) (hw : Blanks w) :
      SpellsItems [j] (cs ++ w)
  | cons {j : Json} {js : List Json} {cs v w ds : List Char} (h : Spells j cs) (hv : Blanks v)
      (hw : Blanks w) (hs : SpellsItems js ds) :
      SpellsItems (j :: js) (cs ++ (v ++ ',' :: (w ++ ds)))

/-- The texts of one or more members, from the quote of the first. -/
inductive SpellsMembers : List (String × Json) → List Char → Prop
  | last {k : String} {j : Json} {u v cs w : List Char} (hu : Blanks u) (hv : Blanks v)
      (h : Spells j cs) (hw : Blanks w) :
      SpellsMembers [(k, j)] (quoted k ++ (u ++ ':' :: (v ++ cs ++ w)))
  | cons {k : String} {j : Json} {ms : List (String × Json)} {t u cs v w ds : List Char}
      (ht : Blanks t) (hu : Blanks u) (h : Spells j cs) (hv : Blanks v) (hw : Blanks w)
      (hs : SpellsMembers ms ds) :
      SpellsMembers ((k, j) :: ms)
        (quoted k ++ (t ++ ':' :: (u ++ cs ++ (v ++ ',' :: (w ++ ds)))))

end

section

variable {j : Json} {items : List Json} {members : List (String × Json)} {cs w rest : List Char}

theorem Spells.eq_cons (h : Spells j cs) : ∃ c ds, cs = c :: ds ∧ startsValue c = true := by
  cases h with
  | null => exact ⟨'n', _, rfl, by decide⟩
  | yes => exact ⟨'t', _, rfl, by decide⟩
  | no => exact ⟨'f', _, rfl, by decide⟩
  | number h =>
    cases cs with
    | nil => exact absurd h.1 (by decide)
    | cons c cs => exact ⟨c, cs, rfl, by simp [startsValue, show isNumberStart c from h.1]⟩
  | string s => exact ⟨'"', _, rfl, by decide⟩
  | emptyArray => exact ⟨'[', _, rfl, by decide⟩
  | array => exact ⟨'[', _, rfl, by decide⟩
  | emptyObject => exact ⟨'\x7b', _, rfl, by decide⟩
  | object => exact ⟨'\x7b', _, rfl, by decide⟩

theorem SpellsItems.eq_cons (h : SpellsItems items cs) :
    ∃ c ds, cs = c :: ds ∧ startsValue c = true := by
  cases h with
  | last h | cons h =>
    obtain ⟨c, ds, rfl, hc⟩ := h.eq_cons
    exact ⟨c, _, List.cons_append, hc⟩

theorem SpellsMembers.eq_cons (h : SpellsMembers members cs) : ∃ ds, cs = '"' :: ds := by
  cases h with
  | last | cons => exact ⟨_, rfl⟩

private theorem readScalar_lexeme {lexeme : List Char} (h : IsLexeme lexeme)
    (hrest : EndsLexeme rest) : readScalar (lexeme ++ rest) = (.number lexeme, some rest) := by
  have hread := h.2 rest hrest
  cases lexeme with
  | nil => exact absurd h.1 (by decide)
  | cons c cs =>
    have hc : isNumberStart c = true := h.1
    have hquote : c ≠ '"' := by
      rintro rfl
      revert hc
      decide
    rw [List.cons_append, readScalar]
    · simp only [List.head?_cons, Option.any_some, hc, if_true]
      rw [← List.cons_append, hread]
    · intro _ heq
      exact absurd (List.cons.inj heq).1 hquote

-- A scalar stands alone: its first character opens no container.
private theorem readValue_scalar {c : Char} (hw : Blanks w) (h : startsValue c = true)
    (hopen : c ≠ '[' ∧ c ≠ '\x7b') (fuel : Nat) :
    readValue (fuel + 1) (w ++ c :: cs) = readScalar (c :: cs) := by
  rw [readValue, skipSpace_append_cons hw (isSpace_of_startsValue h)]
  split
  · exact absurd (List.cons.inj ‹_›).1 hopen.1
  · exact absurd (List.cons.inj ‹_›).1 hopen.2
  · rfl

private theorem readValue_lexeme {lexeme : List Char} (hw : Blanks w) (h : IsLexeme lexeme)
    (hrest : EndsLexeme rest) (fuel : Nat) :
    readValue (fuel + 1) (w ++ (lexeme ++ rest)) = (.number lexeme, some rest) := by
  have hread := readScalar_lexeme h hrest
  obtain ⟨hc, -⟩ := h
  cases lexeme with
  | nil => exact absurd hc (by decide)
  | cons c cs =>
    replace hc : isNumberStart c = true := hc
    have hopen : c ≠ '[' ∧ c ≠ '\x7b' := by
      constructor <;> (rintro rfl; revert hc; decide)
    exact (readValue_scalar hw (by simp [startsValue, hc]) hopen fuel).trans hread

-- What follows the opening bracket: the items, which do not begin with the closing one.
private theorem readValue_array (hw : Blanks w) {v : List Char} (hv : Blanks v)
    (h : SpellsItems items cs) {fuel : Nat}
    (hitems : readItems fuel (cs ++ ']' :: rest) = (items, some rest)) :
    readValue (fuel + 1) (w ++ '[' :: (v ++ (cs ++ ']' :: rest))) = (.array items, some rest) := by
  obtain ⟨c, ds, rfl, hc⟩ := h.eq_cons
  have hclose : c ≠ ']' := by
    rintro rfl
    revert hc
    decide
  rw [readValue, skipSpace_append_cons hw (by decide)]
  simp only [List.cons_append, skipSpace_append_cons hv (isSpace_of_startsValue hc)] at hitems ⊢
  split
  · exact absurd (List.cons.inj ‹_›).1 hclose
  · rw [hitems]

private theorem readValue_object (hw : Blanks w) {v : List Char} (hv : Blanks v)
    (h : SpellsMembers members cs) {fuel : Nat}
    (hmembers : readMembers fuel (cs ++ '\x7d' :: rest) = (members, some rest)) :
    readValue (fuel + 1) (w ++ '\x7b' :: (v ++ (cs ++ '\x7d' :: rest))) =
      (.object members, some rest) := by
  obtain ⟨ds, rfl⟩ := h.eq_cons
  rw [readValue, skipSpace_append_cons hw (by decide)]
  simp only [List.cons_append, skipSpace_append_cons hv (show isSpace '"' = false by decide)]
    at hmembers ⊢
  show (object (readMembers fuel _).1, (readMembers fuel _).2) = _
  rw [hmembers]

end

mutual

theorem readValue_of_spells {j : Json} {cs w rest : List Char} (h : Spells j cs) (hw : Blanks w)
    {fuel : Nat} (hfuel : 2 * cs.length ≤ fuel) (hrest : EndsLexeme rest) :
    readValue fuel (w ++ (cs ++ rest)) = (j, some rest) := by
  obtain ⟨fuel, rfl⟩ : ∃ k, fuel = k + 1 := by
    obtain ⟨c, ds, rfl, -⟩ := h.eq_cons
    exact ⟨fuel - 1, by simp at hfuel; omega⟩
  cases h with
  | null | yes | no => exact readValue_scalar hw (by decide) (by decide) fuel
  | number h => exact readValue_lexeme hw h hrest fuel
  | string s =>
    obtain ⟨tail, heq, htail⟩ := readString_quoted s rest
    rw [heq, readValue_scalar hw (by decide) (by decide), readScalar, htail]
  | emptyArray hv =>
    rw [List.cons_append, List.append_assoc, readValue, skipSpace_append_cons hw (by decide)]
    simp only [List.cons_append, List.nil_append,
      skipSpace_append_cons hv (show isSpace ']' = false by decide)]
  | @array items v body hv h =>
    have hitems : readItems fuel ([] ++ (body ++ ']' :: rest)) = (items, some rest) :=
      readItems_of_spells h blanks_nil (by simp at hfuel; omega)
    simpa using readValue_array hw hv h hitems
  | emptyObject hv =>
    rw [List.cons_append, List.append_assoc, readValue, skipSpace_append_cons hw (by decide)]
    simp only [List.cons_append, List.nil_append,
      skipSpace_append_cons hv (show isSpace '\x7d' = false by decide)]
  | @object members v body hv h =>
    have hmembers : readMembers fuel ([] ++ (body ++ '\x7d' :: rest)) = (members, some rest) :=
      readMembers_of_spells h blanks_nil (by simp at hfuel; omega)
    simpa using readValue_object hw hv h hmembers

theorem readItems_of_spells {items : List Json} {cs w rest : List Char} (h : SpellsItems items cs)
    (hw : Blanks w) {fuel : Nat} (hfuel : 2 * cs.length + 1 ≤ fuel) :
    readItems fuel (w ++ (cs ++ ']' :: rest)) = (items, some rest) := by
  -- the fuel suffices for the first item and, one less, for those behind it
  obtain ⟨fuel, rfl⟩ : ∃ k, fuel = k + 1 := ⟨fuel - 1, by omega⟩
  cases h with
  | @last j cs v h hv =>
    have hvalue : readValue fuel (w ++ (cs ++ (v ++ ']' :: rest))) = (j, some (v ++ ']' :: rest)) :=
      readValue_of_spells h hw (by simp at hfuel; omega) (endsLexeme_append hv (by simp) _)
    rw [List.append_assoc, readItems, hvalue]
    simp only [skipSpace_append_cons hv (show isSpace ']' = false by decide)]
  | @cons j js cs u v ds h hu hv hs =>
    have hvalue : readValue fuel (w ++ (cs ++ (u ++ ',' :: (v ++ (ds ++ ']' :: rest))))) =
        (j, some (u ++ ',' :: (v ++ (ds ++ ']' :: rest)))) :=
      readValue_of_spells h hw (by simp at hfuel; omega) (endsLexeme_append hu (by simp) _)
    have hitems : readItems fuel (v ++ (ds ++ ']' :: rest)) = (js, some rest) :=
      readItems_of_spells hs hv (by simp at hfuel; omega)
    simp only [List.append_assoc, List.cons_append, readItems, hvalue,
      skipSpace_append_cons hu (show isSpace ',' = false by decide), hitems]

theorem readMembers_of_spells {members : List (String × Json)} {cs w rest : List Char}
    (h : SpellsMembers members cs) (hw : Blanks w) {fuel : Nat}
    (hfuel : 2 * cs.length + 1 ≤ fuel) :
    readMembers fuel (w ++ (cs ++ '\x7d' :: rest)) = (members, some rest) := by
  obtain ⟨fuel, rfl⟩ : ∃ k, fuel = k + 1 := ⟨fuel - 1, by omega⟩
  cases h with
  | @last k j u v cs t hu hv h ht =>
    have hvalue : readValue fuel (v ++ (cs ++ (t ++ '\x7d' :: rest))) =
        (j, some (t ++ '\x7d' :: rest)) :=
      readValue_of_spells h hv (by simp at hfuel; omega) (endsLexeme_append ht (by simp) _)
    obtain ⟨tail, heq, htail⟩ :=
      readString_quoted k (u ++ ':' :: (v ++ (cs ++ (t ++ '\x7d' :: rest))))
    simp only [List.append_assoc, List.cons_append, heq, readMembers,
      skipSpace_append_cons hw (show isSpace '"' = false by decide), htail,
      skipSpace_append_cons hu (show isSpace ':' = false by decide), hvalue,
      skipSpace_append_cons ht (show isSpace '\x7d' = false by decide)]
  | @cons k j ms s t cs u v ds hs ht h hu hv hms =>
    have hvalue : readValue fuel (t ++ (cs ++ (u ++ ',' :: (v ++ (ds ++ '\x7d' :: rest))))) =
        (j, some (u ++ ',' :: (v ++ (ds ++ '\x7d' :: rest)))) :=
      readValue_of_spells h ht (by simp at hfuel; omega) (endsLexeme_append hu (by simp) _)
    have hmembers : readMembers fuel (v ++ (ds ++ '\x7d' :: rest)) = (ms, some rest) :=
      readMembers_of_spells hms hv (by simp at hfuel; omega)
    obtain ⟨tail, heq, htail⟩ := readString_quoted k
      (s ++ ':' :: (t ++ (cs ++ (u ++ ',' :: (v ++ (ds ++ '\x7d' :: rest))))))
    simp only [List.append_assoc, List.cons_append, heq, readMembers,
      skipSpace_append_cons hw (show isSpace '"' = false by decide), htail,
      skipSpace_append_cons hs (show isSpace ':' = false by decide), hvalue,
      skipSpace_append_cons hu (show isSpace ',' = false by decide), hmembers]

end

/-- Every text of a value reads as that value. -/
theorem read_of_spells {j : Json} {cs : List Char} (h : Spells j cs) :
    read (String.ofList cs) = j := by
  have hread : readValue (2 * cs.length + 2) cs = (j, some []) := by
    have hfuel : 2 * cs.length ≤ 2 * cs.length + 2 := Nat.le_add_right _ 2
    have hvalue := readValue_of_spells h blanks_nil hfuel endsLexeme_nil
    rwa [List.nil_append, List.append_nil] at hvalue
  simp [read, readLeading, hread, skipSpace]

end BenchLedger.Json
