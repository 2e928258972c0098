import BenchLedger.Dashboard.Document
import BenchLedger.Proofs.Json.Extent

/-!
# What stands around a document

A document is read out of a script without the assignment in front of it, the semicolons behind it
and the blanks around all of these.  A JSON text ends neither with a blank nor with a semicolon, so
nothing of the document itself goes with them, whatever its strings hold.
-/

namespace BenchLedger

namespace Json

theorem isBlank_of_isSpace {c : Char} (h : isSpace c = true) : Text.isBlank c = true := by
  simp only [isSpace, Bool.or_eq_true, beq_iff_eq] at h
  rcases h with ((rfl | rfl) | rfl) | rfl <;> decide

theorem Blanks.all_isBlank {w : List Char} (hw : Blanks w) : w.all Text.isBlank = true :=
  List.all_eq_true.2 fun c hc => isBlank_of_isSpace (hw c hc)

theorem isBlank_of_startsValue {c : Char} (h : startsValue c = true) : Text.isBlank c = false := by
  simp only [startsValue, isNumberStart, Bool.or_eq_true, beq_iff_eq] at h
  rcases h with (((((rfl | rfl) | rfl) | rfl) | rfl) | rfl) | (rfl | h)
  case inr.inr => exact Text.isBlank_of_isDigit h
  all_goals decide

theorem isBlank_of_endsValue {c : Char} (h : endsValue c = true) : Text.isBlank c = false := by
  simp only [endsValue, Bool.or_eq_true, beq_iff_eq] at h
  rcases h with ((((rfl | rfl) | rfl) | rfl) | rfl) | h
  case inr => exact Text.isBlank_of_isDigit h
  all_goals decide

theorem Delimited.starts_notBlank {text : List Char} (h : Delimited text) :
    ∃ c cs, text = c :: cs ∧ Text.isBlank c = false := by
  obtain ⟨c, cs, heq, hc⟩ := h.starts
  exact ⟨c, cs, heq, isBlank_of_startsValue hc⟩

end Json

namespace Dashboard

open Text (EndsWith isBlank)
open Json (Delimited endsValue IsText)

variable {cs text u v w : List Char}

/-- What may stand behind a document: blanks, semicolons and blanks. -/
def closing (v : List Char) (n : Nat) (w : List Char) : List Char :=
  v ++ (List.replicate n ';' ++ w)

theorem all_isBlank_append (hv : v.all isBlank) (hw : w.all isBlank) :
    (v ++ w).all isBlank = true := by
  rw [List.all_append, hv, hw]
  rfl

theorem endsWith_notBlank (h : EndsWith endsValue cs) : EndsWith (fun c => !isBlank c) cs :=
  h.imp fun c hc => by rw [Json.isBlank_of_endsValue hc]; rfl

theorem endsWith_notSemicolon (h : EndsWith endsValue cs) (hv : v.all isBlank) :
    EndsWith (fun c => !(c == ';')) (cs ++ v) := by
  have hne : ∀ c, isBlank c = true ∨ endsValue c = true → (!(c == ';')) = true := by
    intro c hc
    rw [Bool.not_eq_true', beq_eq_false_iff_ne]
    rintro rfl
    revert hc
    decide
  apply (h.imp fun c hc => hne c (.inr hc)).append_of_eq_nil_or
  by_cases hnil : v = []
  · exact .inl hnil
  · exact .inr (Text.endsWith_of_all hnil fun c hc => hne c (.inl (List.all_eq_true.1 hv c hc)))

/-- Behind a value, trimming leaves at most the semicolons and the blanks in front of them. -/
theorem strip_closed (hstart : ∃ c ds, cs = c :: ds ∧ isBlank c = false)
    (hend : EndsWith endsValue cs) (hu : u.all isBlank) (hv : v.all isBlank)
    (hw : w.all isBlank) (n : Nat) :
    ∃ v', v'.all isBlank = true ∧
      Text.strip (u ++ (cs ++ closing v n w)) = cs ++ closing v' n [] := by
  cases n with
  | zero =>
    -- without semicolons the blanks on both sides of them are one run of blanks
    refine ⟨[], rfl, ?_⟩
    simpa [closing] using
      Text.strip_append hu (all_isBlank_append hv hw) hstart (endsWith_notBlank hend)
  | succ n =>
    obtain ⟨c, ds, rfl, hc⟩ := hstart
    have hends : EndsWith (fun c => !isBlank c) (c :: ds ++ closing v (n + 1) []) := by
      refine ⟨c :: ds ++ (v ++ List.replicate n ';'), ';', ?_, by decide⟩
      rw [closing, List.replicate_succ']
      simp
    refine ⟨v, hv, ?_⟩
    simpa [closing] using Text.strip_append hu hw ⟨c, _, rfl, hc⟩ hends

/-- Dropping the semicolons, and then blanks, takes nothing of the value in front of them. -/
theorem dropTrailing_closing (hend : EndsWith endsValue text) (hv : v.all isBlank) (n : Nat) :
    Text.dropTrailingBlanks
      ((text ++ closing v n []).reverse.dropWhile (· == ';')).reverse = text := by
  rw [closing, List.append_nil, ← List.append_assoc, Text.dropTrailing_append (by simp),
    Text.dropTrailing_of_endsWith (endsWith_notSemicolon hend hv), Text.dropTrailingBlanks,
    Text.dropTrailing_append hv, Text.dropTrailing_of_endsWith (endsWith_notBlank hend)]

theorem unwrap_bare (h : Delimited text) (hu : u.all isBlank) (hv : v.all isBlank)
    (hw : w.all isBlank) (n : Nat) : unwrap (u ++ (text ++ closing v n w)) = text := by
  obtain ⟨v₁, hv₁, htrimmed⟩ := strip_closed h.starts_notBlank h.ends hu hv hw n
  obtain ⟨v₂, hv₂, hbody⟩ :=
    strip_closed h.starts_notBlank h.ends (u := []) rfl hv₁ (w := []) rfl n
  rw [List.nil_append] at hbody
  -- no value starts as the name of the variable does
  have hname : Text.after? variableName (text ++ closing v₁ n []) = none := by
    obtain ⟨c, ds, rfl, hc⟩ := h.starts
    refine Text.after?_eq_none (d := 'w') rfl ?_ _
    rintro rfl
    exact absurd hc (by decide)
  unfold unwrap
  simp only [htrimmed, hname, hbody]
  exact dropTrailing_closing h.ends hv₂ n

theorem unwrap_assigned (h : Delimited text) (hu : u.all isBlank) {w₂ w₃ : List Char}
    (hw₂ : w₂.all isBlank) (hw₃ : w₃.all isBlank) (hv : v.all isBlank) (hw : w.all isBlank)
    (n : Nat) :
    unwrap (u ++ (variableName.toList ++ (w₂ ++ '=' :: (w₃ ++ (text ++ closing v n w))))) =
      text := by
  have htrimmed : ∃ v', v'.all isBlank = true ∧
      Text.strip (u ++ (variableName.toList ++ (w₂ ++ '=' :: (w₃ ++ (text ++ closing v n w))))) =
        variableName.toList ++ (w₂ ++ '=' :: (w₃ ++ (text ++ closing v' n []))) := by
    have hstart : ∃ c cs, variableName.toList ++ (w₂ ++ '=' :: w₃) ++ text = c :: cs ∧
        isBlank c = false := ⟨'w', _, rfl, by decide⟩
    obtain ⟨v', hv', hstrip⟩ := strip_closed hstart (h.ends.append _) hu hv hw n
    exact ⟨v', hv', by simpa using hstrip⟩
  obtain ⟨v₁, hv₁, htrimmed⟩ := htrimmed
  obtain ⟨v₂, hv₂, hbody⟩ := strip_closed h.starts_notBlank h.ends hw₃ hv₁ (w := []) rfl n
  have hassigned :
      Text.after? "=" (Text.dropBlanks (w₂ ++ '=' :: (w₃ ++ (text ++ closing v₁ n [])))) =
        some (w₃ ++ (text ++ closing v₁ n [])) := by
    rw [Text.dropBlanks_append_of_all hw₂, Text.dropBlanks_cons (by decide)]
    exact Text.after?_append "=" _
  unfold unwrap
  simp only [htrimmed, Text.after?_append, hassigned, Option.getD_some, hbody]
  exact dropTrailing_closing h.ends hv₂ n

theorem read_eq (s : String) : read s = ofJson (Json.read (String.ofList (unwrap s.toList))) := rfl

/-- A document reads the same in a script: blanks, the assignment in front and semicolons behind
change nothing, whatever the document holds. -/
theorem read_wrapped {j w₁ w₂ w₃ w₄ w₅ : String} (hj : IsText j)
    (h₁ : Text.isAllBlank w₁) (h₂ : Text.isAllBlank w₂) (h₃ : Text.isAllBlank w₃)
    (h₄ : Text.isAllBlank w₄) (h₅ : Text.isAllBlank w₅) (n : Nat) :
    read (w₁ ++ variableName ++ w₂ ++ "=" ++ w₃ ++ j ++ w₄ ++
        String.ofList (List.replicate n ';') ++ w₅) = read j ∧
      read (w₁ ++ j ++ w₄ ++ String.ofList (List.replicate n ';') ++ w₅) = read j := by
  obtain ⟨u, text, v, hu, hv, heq, htext⟩ := hj.eq_append
  have hbare : unwrap j.toList = text := by
    have hunwrap := unwrap_bare htext hu.all_isBlank hv.all_isBlank (w := []) rfl 0
    simpa [closing, heq] using hunwrap
  have hbehind := all_isBlank_append hv.all_isBlank h₄
  constructor
  · have hfront := all_isBlank_append h₃ hu.all_isBlank
    rw [read_eq, read_eq, hbare, ← unwrap_assigned htext h₁ h₂ hfront hbehind h₅ n]
    simp [closing, heq]
  · have hfront := all_isBlank_append h₁ hu.all_isBlank
    rw [read_eq, read_eq, hbare, ← unwrap_bare htext hfront hbehind h₅ n]
    simp [closing, heq]

-- A document whose strings hold semicolons, an equals sign and the name of the variable.
def deceivingText : String :=
  " \x7b\"lastUpdate\":1,\"repoUrl\":\"window.BENCHMARK_DATA = \\\"a;b=c;\\\";\"," ++
    "\"entries\":\x7b\x7d\x7d\n"

theorem read_wrapped_deceivingText :
    IsText deceivingText ∧ (read deceivingText).isOk = true ∧
      read ("\u00a0 " ++ variableName ++ "\t" ++ "=" ++ "" ++ deceivingText ++ " " ++
        String.ofList (List.replicate 2 ';') ++ "\n\u2003") = read deceivingText ∧
      read ("\u00a0 " ++ deceivingText ++ " " ++ String.ofList (List.replicate 2 ';') ++
        "\n\u2003") = read deceivingText := by
  have htext : IsText deceivingText := by decide +kernel
  have hok : (read deceivingText).isOk = true := by decide +kernel
  exact ⟨htext, hok, read_wrapped htext (by decide) (by decide) (by decide) (by decide)
    (by decide) 2⟩

end Dashboard

end BenchLedger
