import BenchLedger.Proofs.Decimal.Numerals
import BenchLedger.Proofs.Json.Spelling
import BenchLedger.Proofs.Text.Trimming

/-!
# Where a value begins and ends

A reader takes the text of a value from its first character to its last.  Both can be told from what
stands around a value: the first is a letter, a quote, an opening bracket or the start of a number,
the last a letter, a quote, a closing bracket or a digit.
-/

namespace BenchLedger.Json

open Decimal (IsDigits)
open Text (EndsWith)

/-- The last character of a value's text. -/
def endsValue (c : Char) : Bool :=
  c == 'l' || c == 'e' || c == '"' || c == ']' || c == '\x7d' || c.isDigit

/-- The text begins and ends as that of a value does. -/
structure Delimited (text : List Char) : Prop where
  starts : ∃ c cs, text = c :: cs ∧ startsValue c = true
  ends : EndsWith endsValue text

theorem delimited_enclosed {first last : Char} (hfirst : startsValue first = true)
    (hlast : endsValue last = true) (inner : List Char) :
    Delimited (first :: (inner ++ [last])) :=
  ⟨⟨first, _, rfl, hfirst⟩, first :: inner, last, rfl, hlast⟩

theorem exists_delimited_append {first last : Char} (hfirst : startsValue first = true)
    (hlast : endsValue last = true) {u body rest : List Char} (hu : Blanks u)
    (hbody : ∃ inner, body = inner ++ last :: rest) :
    ∃ w text, Blanks w ∧ u ++ first :: body = w ++ (text ++ rest) ∧ Delimited text := by
  obtain ⟨inner, rfl⟩ := hbody
  exact ⟨u, _, hu, by simp, delimited_enclosed hfirst hlast inner⟩

section Tokens

variable {cs ds rest lexeme : List Char}

theorem endsWith_of_isDigits (h : IsDigits ds) : EndsWith Char.isDigit ds :=
  Text.endsWith_of_all h.ne_nil h.digits

theorem readUnits_eq_append {units : List Nat} (h : readUnits cs = some (units, rest)) :
    ∃ body, cs = body ++ '"' :: rest := by
  fun_induction readUnits cs generalizing units rest with
  | case2 cs =>
    cases h
    exact ⟨[], rfl⟩
  | case3 a b c d cs unit units' rest' hread hunit ih =>
    cases h
    obtain ⟨body, rfl⟩ := ih hread
    exact ⟨'\\' :: 'u' :: a :: b :: c :: d :: body, rfl⟩
  | case5 e cs hlong c units' rest' hread hshort ih =>
    cases h
    obtain ⟨body, rfl⟩ := ih hread
    exact ⟨'\\' :: e :: body, rfl⟩
  | case8 c cs hquote hlong hshort hplain ih =>
    obtain ⟨⟨units', rest'⟩, hread, heq⟩ := Option.map_eq_some_iff.1 h
    cases heq
    obtain ⟨body, rfl⟩ := ih hread
    exact ⟨c :: body, rfl⟩
  | case1 | case4 | case6 | case7 => cases h

theorem readString_eq_append {j : Json} (h : readString cs = some (j, rest)) :
    ∃ body, cs = body ++ '"' :: rest := by
  obtain ⟨⟨units, rest'⟩, hunits, heq⟩ := Option.map_eq_some_iff.1 h
  have hrest : rest' = rest := by
    dsimp only at heq
    split at heq <;> exact congrArg Prod.snd heq
  exact readUnits_eq_append (hrest ▸ hunits)

theorem readWhole_eq_append (h : readWhole cs = some (ds, rest)) :
    cs = ds ++ rest ∧ IsDigits ds := by
  unfold readWhole at h
  split at h
  · split at h
    · cases h
    · cases h
      exact ⟨rfl, by simp, by simp⟩
  · split at h
    · cases h
    · rename_i hspan
      cases h
      exact Decimal.isDigits_of_spanDigits hspan (by simpa using ‹_›)

theorem readPlaces_eq_append (h : readPlaces cs = some (ds, rest)) :
    cs = ds ++ rest ∧ (ds = [] ∨ EndsWith Char.isDigit ds) := by
  unfold readPlaces at h
  split at h
  · split at h
    · cases h
    · rename_i hspan
      cases h
      obtain ⟨rfl, hdigits⟩ := Decimal.isDigits_of_spanDigits hspan (by simpa using ‹_›)
      exact ⟨rfl, .inr ((endsWith_of_isDigits hdigits).append ['.'])⟩
  · cases h
    exact ⟨rfl, .inl rfl⟩

theorem readExponent_eq_append (h : readExponent cs = some (ds, rest)) :
    cs = ds ++ rest ∧ (ds = [] ∨ EndsWith Char.isDigit ds) := by
  unfold readExponent at h
  split at h
  case h_1 c cs =>
    split at h
    case isTrue =>
      split at h
      rename_i sign digits hsign
      have hcs : cs = sign ++ digits := by
        split at hsign <;> (cases hsign; rfl)
      split at h
      · cases h
      · rename_i hspan
        cases h
        obtain ⟨rfl, hdigits⟩ := Decimal.isDigits_of_spanDigits hspan (by simpa using ‹_›)
        refine ⟨by rw [hcs]; simp, .inr ?_⟩
        exact (endsWith_of_isDigits hdigits).append (c :: sign)
    case isFalse =>
      cases h
      exact ⟨rfl, .inl rfl⟩
  case h_2 =>
    cases h
    exact ⟨rfl, .inl rfl⟩

/-- A number ends with a digit. -/
theorem readNumber_eq_append (h : readNumber cs = some (lexeme, rest)) :
    cs = lexeme ++ rest ∧ EndsWith Char.isDigit lexeme := by
  unfold readNumber at h
  split at h
  rename_i sign body hsign
  have hcs : cs = sign ++ body := by
    split at hsign <;> (cases hsign; rfl)
  simp only [Option.bind_eq_bind, Option.bind_eq_some_iff, Option.pure_def, Option.some.injEq,
    Prod.mk.injEq, Prod.exists] at h
  obtain ⟨whole, afterWhole, hwhole, places, afterPlaces, hplaces, power, afterPower, hpower,
    rfl, rfl⟩ := h
  obtain ⟨rfl, hdigits⟩ := readWhole_eq_append hwhole
  obtain ⟨rfl, hplacesEnd⟩ := readPlaces_eq_append hplaces
  obtain ⟨rfl, hpowerEnd⟩ := readExponent_eq_append hpower
  refine ⟨by rw [hcs]; simp, ?_⟩
  have hends := (endsWith_of_isDigits hdigits).append sign
  exact (hends.append_of_eq_nil_or hplacesEnd).append_of_eq_nil_or hpowerEnd

theorem delimited_of_readNumber (hstart : cs.head?.any isNumberStart = true)
    (h : readNumber cs = some (lexeme, rest)) : cs = lexeme ++ rest ∧ Delimited lexeme := by
  obtain ⟨rfl, hends⟩ := readNumber_eq_append h
  obtain ⟨ds, d, hlast, hd⟩ := hends
  refine ⟨rfl, ?_, ds, d, hlast, by simp [endsValue, hd]⟩
  cases lexeme with
  | nil => simp at hlast
  | cons c lexeme =>
    have hc : isNumberStart c = true := hstart
    exact ⟨c, lexeme, rfl, by simp [startsValue, hc]⟩

theorem readScalar_eq_append {j : Json} (h : readScalar cs = (j, some rest)) :
    ∃ text, cs = text ++ rest ∧ Delimited text := by
  unfold readScalar at h
  split at h
  · split at h
    · rename_i hstring
      cases h
      obtain ⟨body, rfl⟩ := readString_eq_append hstring
      exact ⟨'"' :: (body ++ ['"']), by simp, delimited_enclosed (by decide) (by decide) body⟩
    · cases h
  · split at h
    case isTrue hstart =>
      split at h
      · rename_i hnumber
        cases h
        exact ⟨_, delimited_of_readNumber hstart hnumber⟩
      · cases h
    case isFalse =>
      split at h
      · rename_i hword
        cases h
        exact ⟨_, Text.eq_append_of_after? hword,
          delimited_enclosed (by decide) (by decide) ['u', 'l']⟩
      split at h
      · rename_i hword
        cases h
        exact ⟨_, Text.eq_append_of_after? hword,
          delimited_enclosed (by decide) (by decide) ['r', 'u']⟩
      split at h
      · rename_i hword
        cases h
        exact ⟨_, Text.eq_append_of_after? hword,
          delimited_enclosed (by decide) (by decide) ['a', 'l', 's']⟩
      · cases h

-- What is skipped stands in front of the rest.
theorem exists_blanks_append (cs : List Char) : ∃ w, Blanks w ∧ cs = w ++ skipSpace cs :=
  ⟨cs.takeWhile isSpace, fun _ hc => List.mem_takeWhile_imp hc,
    List.takeWhile_append_dropWhile.symm⟩

end Tokens

mutual

theorem readValue_eq_append {fuel : Nat} {cs rest : List Char} {j : Json}
    (h : readValue fuel cs = (j, some rest)) :
    ∃ w text, Blanks w ∧ cs = w ++ (text ++ rest) ∧ Delimited text := by
  cases fuel with
  | zero => cases h
  | succ fuel =>
    obtain ⟨w, hw, hcs⟩ := exists_blanks_append cs
    rw [readValue] at h
    split at h
    case h_1 body hopen =>
      rw [hopen] at hcs
      obtain ⟨v, -, hbody⟩ := exists_blanks_append body
      have hclose : ∃ inner, body = inner ++ ']' :: rest := by
        split at h
        · rename_i hclose
          cases h
          exact ⟨v, hclose ▸ hbody⟩
        · cases hitems : readItems fuel (skipSpace body) with
          | mk items tail =>
            rw [hitems] at h
            cases h
            obtain ⟨inner, hinner⟩ := readItems_eq_append hitems
            exact ⟨v ++ inner, by rw [List.append_assoc, ← hinner, ← hbody]⟩
      rw [hcs]
      exact exists_delimited_append (by decide) (by decide) hw hclose
    case h_2 body hopen =>
      rw [hopen] at hcs
      obtain ⟨v, -, hbody⟩ := exists_blanks_append body
      have hclose : ∃ inner, body = inner ++ '\x7d' :: rest := by
        split at h
        · rename_i hclose
          cases h
          exact ⟨v, hclose ▸ hbody⟩
        · cases hmembers : readMembers fuel (skipSpace body) with
          | mk members tail =>
            rw [hmembers] at h
            cases h
            obtain ⟨inner, hinner⟩ := readMembers_eq_append hmembers
            exact ⟨v ++ inner, by rw [List.append_assoc, ← hinner, ← hbody]⟩
      rw [hcs]
      exact exists_delimited_append (by decide) (by decide) hw hclose
    case h_3 =>
      obtain ⟨text, htext, hdelimited⟩ := readScalar_eq_append h
      exact ⟨w, text, hw, htext ▸ hcs, hdelimited⟩

theorem readItems_eq_append {fuel : Nat} {cs rest : List Char} {items : List Json}
    (h : readItems fuel cs = (items, some rest)) : ∃ body, cs = body ++ ']' :: rest := by
  cases fuel with
  | zero => cases h
  | succ fuel =>
    rw [readItems] at h
    split at h
    case h_1 => cases h
    case h_2 j tail hvalue =>
      obtain ⟨w, text, -, rfl, -⟩ := readValue_eq_append hvalue
      obtain ⟨v, -, htail⟩ := exists_blanks_append tail
      split at h
      case h_1 hclose =>
        cases h
        exact ⟨w ++ (text ++ v), by rw [htail, hclose]; simp⟩
      case h_2 more hcomma =>
        cases hitems : readItems fuel more with
        | mk items tail =>
          rw [hitems] at h
          cases h
          obtain ⟨inner, rfl⟩ := readItems_eq_append hitems
          exact ⟨w ++ (text ++ (v ++ ',' :: inner)), by rw [htail, hcomma]; simp⟩
      case h_3 => cases h

theorem readMembers_eq_append {fuel : Nat} {cs rest : List Char} {members : List (String × Json)}
    (h : readMembers fuel cs = (members, some rest)) : ∃ body, cs = body ++ '\x7d' :: rest := by
  cases fuel with
  | zero => cases h
  | succ fuel =>
    obtain ⟨w, -, hcs⟩ := exists_blanks_append cs
    rw [readMembers] at h
    split at h
    case h_1 afterQuote hquote =>
      split at h
      case h_1 key afterKey hkey =>
        obtain ⟨name, rfl⟩ := readString_eq_append hkey
        obtain ⟨u, -, hafterKey⟩ := exists_blanks_append afterKey
        split at h
        case h_1 afterColon hcolon =>
          split at h
          case h_1 => cases h
          case h_2 j tail hvalue =>
            obtain ⟨v, text, -, rfl, -⟩ := readValue_eq_append hvalue
            obtain ⟨t, -, htail⟩ := exists_blanks_append tail
            -- what stands before the mark behind the first member
            have hfirst : cs = w ++ '"' :: name ++ '"' :: u ++ ':' :: v ++ text ++ t ++
                skipSpace tail := by
              rw [hcs, hquote, hafterKey, hcolon]
              simp [← htail]
            split at h
            case h_1 hclose =>
              cases h
              exact ⟨_, hclose ▸ hfirst⟩
            case h_2 more hcomma =>
              cases hmembers : readMembers fuel more with
              | mk members tail =>
                rw [hmembers] at h
                cases h
                obtain ⟨inner, rfl⟩ := readMembers_eq_append hmembers
                exact ⟨_, (hcomma ▸ hfirst).trans (List.append_assoc _ (',' :: inner) _).symm⟩
            case h_3 => cases h
        case h_2 => cases h
      case h_2 => cases h
    case h_2 => cases h

end

/-- A text is JSON if one value stands in it and nothing else but blanks. -/
def IsText (s : String) : Prop :=
  (readLeading s).2 = true

instance (s : String) : Decidable (IsText s) :=
  inferInstanceAs (Decidable (_ = true))

theorem IsText.eq_append {s : String} (h : IsText s) :
    ∃ u text v, Blanks u ∧ Blanks v ∧ s.toList = u ++ (text ++ v) ∧ Delimited text := by
  unfold IsText readLeading at h
  dsimp only at h
  split at h
  case h_1 j rest hvalue =>
    obtain ⟨u, text, hu, htext, hdelimited⟩ := readValue_eq_append hvalue
    obtain ⟨v, hv, hrest⟩ := exists_blanks_append rest
    rw [List.isEmpty_iff.1 h, List.append_nil] at hrest
    exact ⟨u, text, v, hu, hv, hrest ▸ htext, hdelimited⟩
  case h_2 => cases h

end BenchLedger.Json
