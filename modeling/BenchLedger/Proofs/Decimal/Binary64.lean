import BenchLedger.Decimal.Binary64

/-!
# Comparing binary64 numbers

A number is equal to itself by the comparison of binary64 unless it is not a number.
-/

namespace BenchLedger.Decimal

open Float.Model (UnpackedFloat)

private theorem compare_self {u : UnpackedFloat} (h : u.isFinite = true) :
    u.compare u = some .eq := by
  cases u with
  | infinity sign => contradiction
  | notANumber => contradiction
  | zero sign => rfl
  | finite sign mantissa exponent =>
    have hexponent : compare exponent exponent = .eq := Std.ReflCmp.compare_self
    have hmantissa : compare mantissa mantissa = .eq := Std.ReflCmp.compare_self
    cases sign with
    | positive =>
      show some ((compare exponent exponent).then (compare mantissa mantissa)) = some .eq
      rw [hexponent, hmantissa]
      rfl
    | negative =>
      -- below zero the greater magnitude is the lesser number
      show some ((compare exponent exponent).then (compare mantissa mantissa)).swap = some .eq
      rw [hexponent, hmantissa]
      rfl

theorem beq_self_of_isFinite {x : Float} (h : x.isFinite = true) : (x == x) = true := by
  show (x.toModel.unpack.compare x.toModel.unpack == some .eq) = true
  rw [compare_self h]
  rfl

end BenchLedger.Decimal
