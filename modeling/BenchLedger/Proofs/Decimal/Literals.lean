import BenchLedger.Decimal.Literal
import BenchLedger.Proofs.Decimal.Closest
import BenchLedger.Proofs.Text.Trimming

/-!
# Numbers as they are written

The text of a number as people write it: digits, which may start with zeros, perhaps a point and
digits, perhaps a power of ten with or without a sign.  Both readers of such texts find the same
numeral, and what it is read as is the number closest to the decimal that it writes.
-/

namespace BenchLedger.Decimal

/-- The text of a sign; `true` for minus. -/
inductive IsSign : List Char → Bool → Prop
  | none : IsSign [] false
  | plus : IsSign ['+'] false
  | minus : IsSign ['-'] true

/-- The text of a power of ten, with the letter in either case and with or without a sign. -/
inductive IsExponent : List Char → ℤ → Prop
  | none : IsExponent [] 0
  | power {c : Char} {sign ds : List Char} {negative : Bool} (hc : c = 'e' ∨ c = 'E')
      (hsign : IsSign sign negative) (h : IsDigits ds) :
      IsExponent (c :: (sign ++ ds)) (if negative then -(digitsValue ds : ℤ) else digitsValue ds)

/-- The text writes the numeral, which may start with zeros. -/
structure Numeral.HasLiteral (n : Numeral) (cs : List Char) : Prop where
  whole : IsDigits n.whole
  parts : ∃ places power, cs = n.whole ++ (places ++ power) ∧ IsPlaces places n.fraction ∧
    IsExponent power n.power

/-- What a literal is followed by: a blank, or nothing. -/
def BlankBehind (rest : List Char) : Prop :=
  ∀ c ∈ rest.head?, Text.isBlank c = true

section Parts

variable {cs ds rest sign places fraction power : List Char} {negative : Bool} {e : ℤ}

theorem blankBehind_nil : BlankBehind [] := by
  simp [BlankBehind]

theorem blankBehind_of_all {w : List Char} (hw : w.all Text.isBlank) : BlankBehind w := by
  intro c hc
  exact List.all_eq_true.1 hw c (List.mem_of_mem_head? hc)

theorem BlankBehind.endsNumber (h : BlankBehind rest) : EndsNumber rest := by
  intro c hc
  rw [← Bool.not_eq_true]
  intro hdigit
  have hblank := h c hc
  rw [Text.isBlank_of_isDigit hdigit] at hblank
  exact Bool.noConfusion hblank

theorem IsDigits.eq_cons (h : IsDigits ds) : ∃ c cs, ds = c :: cs ∧ c.isDigit = true := by
  cases ds with
  | nil => exact absurd rfl h.ne_nil
  | cons c cs => exact ⟨c, cs, rfl, h.digits c List.mem_cons_self⟩

theorem readSign_cons_of_isDigit {c : Char} (hc : c.isDigit = true) (cs : List Char) :
    readSign (c :: cs) = (false, c :: cs) := by
  rw [readSign]
  all_goals
    rintro _ heq
    rw [(List.cons.inj heq).1] at hc
    exact absurd hc (by decide)

theorem IsSign.readSign_append (hsign : IsSign sign negative) (h : IsDigits ds)
    (rest : List Char) : readSign (sign ++ (ds ++ rest)) = (negative, ds ++ rest) := by
  obtain ⟨c, cs, rfl, hc⟩ := h.eq_cons
  cases hsign with
  | none => exact readSign_cons_of_isDigit hc _
  | plus => rfl
  | minus => rfl

theorem exists_isSign (cs : List Char) :
    ∃ sign, cs = sign ++ (readSign cs).2 ∧ IsSign sign (readSign cs).1 := by
  unfold readSign
  split
  · exact ⟨['+'], rfl, .plus⟩
  · exact ⟨['-'], rfl, .minus⟩
  · exact ⟨[], rfl, .none⟩

theorem IsExponent.endsNumber_append (h : IsExponent power e) (hrest : BlankBehind rest) :
    EndsNumber (power ++ rest) := by
  cases h with
  | none => exact hrest.endsNumber
  | power hc =>
    apply endsNumber_cons
    rcases hc with rfl | rfl <;> decide

theorem IsExponent.head_ne_point (h : IsExponent power e) (hrest : BlankBehind rest) :
    ∀ c ∈ (power ++ rest).head?, c ≠ '.' := by
  cases h with
  | none =>
    rintro c hc rfl
    exact absurd (hrest '.' hc) (by decide)
  | power hc =>
    rcases hc with rfl | rfl <;> simp

theorem IsExponent.readPower_append (h : IsExponent power e) (hrest : BlankBehind rest) :
    readPower (power ++ rest) = (e, rest) := by
  cases h with
  | none =>
    cases rest with
    | nil => rfl
    | cons c rest =>
      have hblank : Text.isBlank c = true := hrest c rfl
      have hc : ¬(c == 'e' || c == 'E') = true := by
        rw [Bool.or_eq_true, beq_iff_eq, beq_iff_eq]
        rintro (rfl | rfl) <;> exact absurd hblank (by decide)
      rw [List.nil_append, readPower, if_neg hc]
  | @power c sign ds negative hc hsign h =>
    have hc : (c == 'e' || c == 'E') = true := by
      rw [Bool.or_eq_true, beq_iff_eq, beq_iff_eq]
      exact hc
    rw [List.cons_append, List.append_assoc, readPower, if_pos hc, hsign.readSign_append h]
    dsimp only
    rw [h.spanDigits_append hrest.endsNumber]
    split
    case h_1 heq => exact absurd (Prod.mk.inj heq).1 h.ne_nil
    case h_2 heq =>
      obtain ⟨rfl, rfl⟩ := Prod.mk.inj heq
      rfl

theorem exists_isExponent (h : readPower cs = (e, rest)) :
    ∃ power, cs = power ++ rest ∧ IsExponent power e := by
  unfold readPower at h
  split at h
  case h_1 c cs =>
    split at h
    case isTrue hc =>
      obtain ⟨sign, hcs, hsign⟩ := exists_isSign cs
      generalize readSign cs = p at *
      obtain ⟨negative, afterSign⟩ := p
      dsimp only at h hcs hsign
      split at h
      · cases h
        exact ⟨[], rfl, .none⟩
      · rename_i hspan
        cases h
        obtain ⟨rfl, hdigits⟩ := isDigits_of_spanDigits hspan (by simpa using ‹_›)
        rw [Bool.or_eq_true, beq_iff_eq, beq_iff_eq] at hc
        exact ⟨_, by rw [hcs, List.cons_append, List.append_assoc], .power hc hsign hdigits⟩
    case isFalse =>
      cases h
      exact ⟨[], rfl, .none⟩
  case h_2 =>
    cases h
    exact ⟨[], rfl, .none⟩

theorem exists_isPlaces (h : readFraction cs = (fraction, rest)) :
    ∃ places, cs = places ++ rest ∧ IsPlaces places fraction := by
  unfold readFraction at h
  split at h
  · split at h
    · cases h
      exact ⟨[], rfl, .none⟩
    · rename_i hspan
      cases h
      obtain ⟨rfl, hdigits⟩ := isDigits_of_spanDigits hspan (by simpa using ‹_›)
      exact ⟨_, rfl, .point hdigits⟩
  · cases h
    exact ⟨[], rfl, .none⟩

end Parts

namespace Numeral

variable {n : Numeral} {cs rest : List Char}

theorem HasLiteral.eq_cons (h : n.HasLiteral cs) : ∃ c ds, cs = c :: ds ∧ c.isDigit = true := by
  obtain ⟨hwhole, places, power, rfl, -, -⟩ := h
  obtain ⟨c, ds, heq, hc⟩ := hwhole.eq_cons
  exact ⟨c, _, by rw [heq, List.cons_append], hc⟩

theorem HasLiteral.read?_append (h : n.HasLiteral cs) (hrest : BlankBehind rest) :
    read? (cs ++ rest) = some (n, rest) := by
  obtain ⟨hwhole, places, power, rfl, hplaces, hpower⟩ := h
  have hends := hpower.endsNumber_append hrest
  rw [List.append_assoc, List.append_assoc]
  unfold Numeral.read?
  rw [hwhole.spanDigits_append (hplaces.endsNumber_append hends)]
  split
  case h_1 heq => exact absurd (Prod.mk.inj heq).1 hwhole.ne_nil
  case h_2 heq =>
    obtain ⟨rfl, rfl⟩ := Prod.mk.inj heq
    rw [hplaces.readFraction_append hends (hpower.head_ne_point hrest)]
    dsimp only
    rw [hpower.readPower_append hrest]

theorem hasLiteral_of_read? (h : read? cs = some (n, rest)) :
    ∃ text, cs = text ++ rest ∧ n.HasLiteral text := by
  unfold Numeral.read? at h
  split at h
  · cases h
  case h_2 whole afterWhole hne hspan =>
    obtain ⟨rfl, hwhole⟩ := isDigits_of_spanDigits hspan hne
    cases hfraction : readFraction afterWhole with
    | mk fraction afterFraction =>
      cases hpower : readPower afterFraction with
      | mk power afterPower =>
        rw [hfraction] at h
        dsimp only at h
        rw [hpower] at h
        cases h
        obtain ⟨places, rfl, hplaces⟩ := exists_isPlaces hfraction
        obtain ⟨text, rfl, hexponent⟩ := exists_isExponent hpower
        exact ⟨whole ++ (places ++ text), by simp, hwhole, places, text, rfl, hplaces, hexponent⟩

theorem HasLiteral.ofLiteral? (h : n.HasLiteral cs) : ofLiteral? cs = some n := by
  obtain ⟨hwhole, places, power, rfl, hplaces, hpower⟩ := h
  obtain ⟨whole, fraction, e⟩ := n
  dsimp only at hwhole hplaces hpower
  have hends := hpower.endsNumber_append blankBehind_nil
  have hpoint := hpower.head_ne_point blankBehind_nil
  have hread := hpower.readPower_append blankBehind_nil
  rw [List.append_nil] at hends hpoint hread
  have hempty : (whole ++ fraction).isEmpty = false := by simp [hwhole.ne_nil]
  unfold Numeral.ofLiteral?
  rw [hwhole.spanDigits_append (hplaces.endsNumber_append hends)]
  cases hplaces with
  | none =>
    rw [List.nil_append]
    dsimp only
    split
    · exact absurd rfl (hpoint '.' rfl)
    · simp only [hread, hempty]
      rfl
  | point hdigits =>
    rw [List.cons_append]
    dsimp only
    split
    case h_1 rest heq =>
      obtain rfl := (List.cons.inj heq).2
      simp only [hdigits.spanDigits_append hends, hread, hempty]
      rfl
    case h_2 hne => exact absurd rfl (hne _)

end Numeral

-- No name starts with a digit.
theorem asciiLower_ne {c d : Char} (hc : c.isDigit = true) (hd : d.isDigit = false)
    (cs ds : List Char) :
    Text.asciiLower (String.ofList (c :: cs)) ≠ String.ofList (d :: ds) := by
  intro heq
  have hupper : ¬c.isUpper = true := by
    simp only [Char.isDigit, Char.isUpper, Bool.and_eq_true, decide_eq_true_eq, ge_iff_le,
      UInt32.le_iff_toNat_le] at hc ⊢
    change 48 ≤ c.toNat ∧ c.toNat ≤ 57 at hc
    change ¬(65 ≤ c.toNat ∧ c.toNat ≤ 90)
    omega
  have htext := congrArg String.toList heq
  rw [Text.asciiLower, String.toList_ofList, String.toList_ofList, String.toList_ofList,
    List.map_cons, Char.toLower_eq_of_not_isUpper hupper] at htext
  rw [(List.cons.inj htext).1, hd] at hc
  exact Bool.noConfusion hc

namespace Numeral

variable {n : Numeral} {cs : List Char}

/-- The general reader of numbers takes every such text, as the same numeral. -/
theorem HasLiteral.readLiteral? (h : n.HasLiteral cs) :
    Decimal.readLiteral? cs = some (n.value false) := by
  have hliteral := h.ofLiteral?
  obtain ⟨c, ds, rfl, hc⟩ := h.eq_cons
  have hinf : Text.asciiLower (String.ofList (c :: ds)) ≠ "inf" :=
    asciiLower_ne hc (d := 'i') (by decide) ds ['n', 'f']
  have hinfinity : Text.asciiLower (String.ofList (c :: ds)) ≠ "infinity" :=
    asciiLower_ne hc (d := 'i') (by decide) ds ['n', 'f', 'i', 'n', 'i', 't', 'y']
  have hnan : Text.asciiLower (String.ofList (c :: ds)) ≠ "nan" :=
    asciiLower_ne hc (d := 'n') (by decide) ds ['a', 'n']
  unfold Decimal.readLiteral?
  rw [readSign_cons_of_isDigit hc]
  dsimp only
  rw [isInfinityName, beq_false_of_ne hinf, beq_false_of_ne hinfinity, beq_false_of_ne hnan,
    hliteral]
  rfl

theorem isClosest_value (n : Numeral) : IsClosest (n.value false) n.decimal :=
  isClosest_nearest _ _

end Numeral

end BenchLedger.Decimal
