/-!
Binary64 numbers as exact magnitudes. The finite magnitudes are numbered from 0 upwards without a
gap, by the low 63 bits of their representation; `nearestIndex` finds the number of the magnitude
that is nearest to a fraction, ties going to the even one.
-/

namespace BenchLedger.Decimal

-- Number of the infinite magnitude, one above the largest finite one.
def infinityIndex : Nat := 0x7FF0000000000000

-- The low 63 bits: the number of a magnitude, whatever its sign.
def magnitudeIndex (x : Float) : Nat :=
  x.toBits.toNat % 0x8000000000000000

def isNegative (x : Float) : Bool :=
  0x8000000000000000 ≤ x.toBits.toNat

/-- The magnitude `mantissa · 2 ^ exponent`. -/
structure Magnitude where
  mantissa : Nat
  exponent : Int
  deriving DecidableEq, Repr

def Magnitude.ofIndex (k : Nat) : Magnitude :=
  if k < Nat.pow 2 52 then ⟨k, -1074⟩
  else ⟨Nat.pow 2 52 + k % Nat.pow 2 52, (k / Nat.pow 2 52 : Nat) - 1075⟩

def Magnitude.ofFloat (x : Float) : Magnitude :=
  .ofIndex (magnitudeIndex x)

def Magnitude.fraction (v : Magnitude) : Nat × Nat :=
  (v.mantissa * Nat.pow 2 v.exponent.toNat, Nat.pow 2 (-v.exponent).toNat)

/-- The quotient `num / den` rounded to a whole number, a half to the even neighbour. -/
def roundDiv (num den : Nat) : Nat :=
  let q := num / den
  let r := num % den
  if 2 * r < den ∨ (2 * r = den ∧ q % 2 = 0) then q else q + 1

theorem roundDiv_mul_self (n : Nat) {den : Nat} (h : 0 < den) : roundDiv (n * den) den = n := by
  simp [roundDiv, Nat.mul_div_cancel n h, h]

-- The exponent of the last binary place that is kept of `num / den`.
def keptExponent (num den : Nat) : Int :=
  let estimate : Int := (num.log2 : Int) - den.log2 - 52
  let short := num * Nat.pow 2 (-estimate).toNat <
    Nat.pow 2 52 * (den * Nat.pow 2 estimate.toNat)
  max (if short then estimate - 1 else estimate) (-1074)

/-- Number of the magnitude nearest to `num / den`; a mantissa that rounds up to `2 ^ 53` carries
into the exponent by itself. -/
def nearestIndex (num den : Nat) : Nat :=
  if num = 0 then 0
  else
    let q := keptExponent num den
    let mantissa := roundDiv (num * Nat.pow 2 (-q).toNat) (den * Nat.pow 2 q.toNat)
    min ((q + 1074).toNat * Nat.pow 2 52 + mantissa) infinityIndex

def ofIndex (negative : Bool) (k : Nat) : Float :=
  Float.ofBits (UInt64.ofNat ((if negative then 0x8000000000000000 else 0) + k))

-- Number of decimal digits; zero has none.
def digitCount : Nat → Nat
  | 0 => 0
  | n + 1 => digitCount ((n + 1) / 10) + 1

/-- Number of the magnitude nearest to `digits · 10 ^ exponent`. Decimals below `10 ^ (-400)` or
above `10 ^ 400` are decided by their size alone. -/
def nearestDecimalIndex (digits : Nat) (exponent : Int) : Nat :=
  let size := digitCount digits + exponent
  if digits = 0 then 0
  else if size < -400 then 0
  else if 400 < size then infinityIndex
  else nearestIndex (digits * Nat.pow 10 exponent.toNat) (Nat.pow 10 (-exponent).toNat)

def nearest (negative : Bool) (digits : Nat) (exponent : Int) : Float :=
  ofIndex negative (nearestDecimalIndex digits exponent)

example : nearest false 1 (-1) = 0.1 := by decide +kernel
example : nearest true 0 0 = -0.0 := by decide +kernel
example : magnitudeIndex (nearest false 25 (-325)) = 1 := by decide +kernel
example : magnitudeIndex (nearest false 17976931348623159 292) = infinityIndex := by decide +kernel

end BenchLedger.Decimal
