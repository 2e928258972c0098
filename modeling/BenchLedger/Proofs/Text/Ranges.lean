import BenchLedger.Proofs.Decimal.Layouts
import BenchLedger.Proofs.Time.Timestamps
import BenchLedger.RangeText

/-!
# Reading ranges

A range that was read is not negative, and a finite range that is not negative reads back from its
text as the same number.
-/

namespace BenchLedger

-- A numeral starts with a digit.
theorem Decimal.Numeral.dropBlanks_of_read? {cs : List Char} {p : Numeral × List Char}
    (h : read? cs = some p) : Text.dropBlanks cs = cs := by
  cases cs with
  | nil => rfl
  | cons c cs =>
    refine Text.dropBlanks_cons (Text.isBlank_of_isDigit ?_) cs
    by_contra hdigit
    have hspan : spanDigits (c :: cs) = ([], c :: cs) := by
      simp [spanDigits, hdigit]
    rw [read?, hspan] at h
    exact nomatch h

namespace RangeText

theorem read?_write {x : Float} (hfinite : x.isFinite = true)
    (hneg : Decimal.isNegative x = false) : read? (write x) = some x := by
  obtain ⟨n, hread, hvalue⟩ := Decimal.read?_write_plain hfinite hneg
  have htext : (write x).toList = '±' :: ' ' :: Decimal.plain.write x := by
    rw [write, String.toList_append, Decimal.plainText, String.toList_ofList, String.toList_ofList]
    rfl
  have hsign : dropSign (Text.dropBlanks (write x).toList) = ' ' :: Decimal.plain.write x := by
    rw [htext, Text.dropBlanks_cons (by decide)]
    rfl
  have hblank : Text.dropBlanks (' ' :: Decimal.plain.write x) = Decimal.plain.write x :=
    (Text.dropBlanks_append_of_all (by decide : [' '].all Text.isBlank) _).trans
      (Decimal.Numeral.dropBlanks_of_read? hread)
  rw [read?, hsign, hblank, hread]
  dsimp only
  rw [hvalue]
  rfl

theorem isNegative_of_read? {s : String} {x : Float} (h : read? s = some x) :
    Decimal.isNegative x = false := by
  unfold read? at h
  dsimp only at h
  split at h
  case h_1 n rest hread =>
    split at h
    · rw [← Option.some.inj h]
      exact n.isNegative_value false
    · exact nomatch h
  case h_2 => exact nomatch h

end RangeText

end BenchLedger
