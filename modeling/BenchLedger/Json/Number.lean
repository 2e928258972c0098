import BenchLedger.Decimal.Numeral

/-!
The value of a numeral in a JSON text. Its first digits make up a whole number of 64 bits, which is
rounded to a float and then multiplied or divided by a power of ten. Each of these steps rounds, so
that the value may be a neighbour of the float that is nearest to the numeral.
-/

namespace BenchLedger.Json

/-- The number that the first digits write behind those already taken up, as far as it has 64 bits,
and the digits that are left. -/
def takeUp (significand : Nat) : List Char → Nat × List Char
  | [] => (significand, [])
  | c :: cs =>
    let next := 10 * significand + (c.toNat - 48)
    if next < 0x10000000000000000 then takeUp next cs else (significand, c :: cs)

/-- The number `significand · 10 ^ exponent`, before it is rounded. -/
structure Parts where
  significand : Nat
  exponent : Int
  deriving DecidableEq, Repr

-- Digits that are left over count as zeros, so those of the fraction do not matter at all.
def Parts.ofNumeral (n : Decimal.Numeral) : Parts :=
  let (upper, leftWhole) := takeUp 0 n.whole
  let (significand, leftFraction) := takeUp upper n.fraction
  ⟨significand, n.power + leftWhole.length - (n.fraction.length - leftFraction.length : Nat)⟩

-- A power of ten; from `10 ^ 309` on they are infinite.
def powerOfTen (places : Nat) : Float :=
  Decimal.nearest false 1 places

/-- `x / 10 ^ places`, where at most `steps` divisions by the greatest power of ten come first. -/
def lowered (x : Float) (places : Nat) : Nat → Float
  | 0 => x / powerOfTen places
  | steps + 1 =>
    if places ≤ 308 then x / powerOfTen places
    else if x == 0 then x
    else lowered (x / powerOfTen 308) (places - 308) steps

/-- The value of the parts with a sign; it may be infinite. -/
def Parts.value (p : Parts) (negative : Bool) : Float :=
  let x := Decimal.nearest negative p.significand 0
  let places := p.exponent.natAbs
  if x == 0 then x
  else if 0 ≤ p.exponent then powerOfTen places * x
  else lowered x places (places / 308)

-- A number that is nearest to what its digits write, and one that is not.
example : Parts.value ⟨15, -1⟩ false = 1.5 := by decide +kernel
example : Parts.value ⟨51248178375505404, -15⟩ false ≠ 51.248178375505404 := by decide +kernel
example : Parts.value ⟨1, 309⟩ true = Decimal.ofIndex true Decimal.infinityIndex := by
  decide +kernel

end BenchLedger.Json
