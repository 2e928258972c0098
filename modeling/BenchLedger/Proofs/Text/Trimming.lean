import BenchLedger.Text.Blank

/-!
# Trimming texts

Trimming drops characters at an end of a text up to one that stays, so it stops at a first or last
character of another kind.
-/

namespace BenchLedger.Text

variable {p : Char → Bool} {cs ds rest v w : List Char} {word : String}

/-- The text ends with a character of that kind. -/
def EndsWith (p : Char → Bool) (cs : List Char) : Prop :=
  ∃ ds c, cs = ds ++ [c] ∧ p c = true

theorem EndsWith.append (h : EndsWith p cs) (ds : List Char) : EndsWith p (ds ++ cs) := by
  obtain ⟨es, c, rfl, hc⟩ := h
  exact ⟨ds ++ es, c, (List.append_assoc ds es [c]).symm, hc⟩

theorem EndsWith.append_of_eq_nil_or (h : EndsWith p cs) (hds : ds = [] ∨ EndsWith p ds) :
    EndsWith p (cs ++ ds) := by
  rcases hds with rfl | hds
  · rwa [List.append_nil]
  · exact hds.append cs

theorem EndsWith.imp {q : Char → Bool} (h : EndsWith p cs) (hpq : ∀ c, p c = true → q c = true) :
    EndsWith q cs := by
  obtain ⟨ds, c, hcs, hc⟩ := h
  exact ⟨ds, c, hcs, hpq c hc⟩

theorem endsWith_of_all (hne : cs ≠ []) (h : ∀ c ∈ cs, p c = true) : EndsWith p cs := by
  rcases List.eq_nil_or_concat cs with hnil | ⟨ds, c, rfl⟩
  · exact absurd hnil hne
  · exact ⟨ds, c, List.concat_eq_append, h c (by simp)⟩

theorem isBlank_of_isDigit {c : Char} (h : c.isDigit) : isBlank c = false := by
  simp only [Char.isDigit, Bool.and_eq_true, decide_eq_true_eq, ge_iff_le,
    UInt32.le_iff_toNat_le] at h
  change 48 ≤ c.toNat ∧ c.toNat ≤ 57 at h
  simp only [isBlank, Bool.or_eq_false_iff, Bool.and_eq_false_iff, decide_eq_false_iff_not,
    beq_eq_false_iff_ne]
  omega

theorem dropBlanks_cons {c : Char} (h : isBlank c = false) (cs : List Char) :
    dropBlanks (c :: cs) = c :: cs := by
  simp [dropBlanks, h]

theorem dropBlanks_append_of_isDigit (hne : ds ≠ []) (hds : ∀ c ∈ ds, c.isDigit)
    (rest : List Char) : dropBlanks (ds ++ rest) = ds ++ rest := by
  cases ds with
  | nil => exact absurd rfl hne
  | cons d ds => exact dropBlanks_cons (isBlank_of_isDigit (hds d (by simp))) _

-- Nothing is dropped behind a character that stays.
theorem dropTrailing_of_endsWith (h : EndsWith (fun c => !p c) cs) :
    (cs.reverse.dropWhile p).reverse = cs := by
  obtain ⟨ds, c, rfl, hc⟩ := h
  have hc : ¬p c = true := by simpa using hc
  rw [List.reverse_append, List.reverse_singleton, List.singleton_append,
    List.dropWhile_cons_of_neg hc, List.reverse_cons, List.reverse_reverse]

theorem dropTrailing_append (hw : w.all p) (cs : List Char) :
    ((cs ++ w).reverse.dropWhile p).reverse = (cs.reverse.dropWhile p).reverse := by
  rw [List.reverse_append, List.dropWhile_append_of_pos]
  intro c hc
  exact List.all_eq_true.1 hw c (List.mem_reverse.1 hc)

/-- Trimming takes the blanks around a text that neither begins nor ends with a blank. -/
theorem strip_append (hv : v.all isBlank) (hw : w.all isBlank)
    (hstart : ∃ c ds, cs = c :: ds ∧ isBlank c = false) (hend : EndsWith (fun c => !isBlank c) cs) :
    strip (v ++ (cs ++ w)) = cs := by
  obtain ⟨c, ds, rfl, hc⟩ := hstart
  rw [strip, dropBlanks_append_of_all hv, List.cons_append, dropBlanks_cons hc, ← List.cons_append,
    dropTrailingBlanks, dropTrailing_append hw, dropTrailing_of_endsWith hend]

theorem after?_append (word : String) (cs : List Char) :
    after? word (word.toList ++ cs) = some cs := by
  rw [after?, if_pos (List.isPrefixOf_iff_prefix.2 (List.prefix_append _ _)), List.drop_left]

theorem eq_append_of_after? (h : after? word cs = some rest) : cs = word.toList ++ rest := by
  unfold after? at h
  split at h
  · obtain ⟨tail, rfl⟩ := List.isPrefixOf_iff_prefix.1 ‹_›
    rw [List.drop_left] at h
    rw [Option.some.inj h]
  · cases h

theorem after?_eq_none {c d : Char} {ds : List Char} (hword : word.toList = d :: ds) (hne : c ≠ d)
    (cs : List Char) : after? word (c :: cs) = none := by
  rw [Option.eq_none_iff_forall_not_mem]
  intro rest hrest
  have heq := eq_append_of_after? hrest
  rw [hword, List.cons_append] at heq
  exact hne (List.cons.inj heq).1

end BenchLedger.Text
