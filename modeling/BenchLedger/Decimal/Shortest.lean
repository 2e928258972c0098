import BenchLedger.Decimal.Binary64

/-!
The fewest decimal digits that read back as a given binary64 magnitude. The fractions that round to
`m · 2 ^ q` form an interval, with its ends when `m` is even; the search takes the coarsest power of
ten that has a multiple inside, and of two multiples the nearer.
-/

namespace BenchLedger.Decimal

/-- The decimal `digits · 10 ^ exponent`. -/
structure Scaled where
  digits : Nat
  exponent : Int
  deriving DecidableEq, Repr

/-- The interval of fractions that round to a magnitude, in units of `2 ^ exponent`. -/
structure Interval where
  low : Nat
  middle : Nat
  high : Nat
  closed : Bool
  exponent : Int

-- Below a power of two the neighbours lie half as far apart as above it.
def Interval.ofMagnitude (v : Magnitude) : Interval where
  low :=
    if v.mantissa = Nat.pow 2 52 ∧ v.exponent ≠ -1074 then 4 * v.mantissa - 1
    else 4 * v.mantissa - 2
  middle := 4 * v.mantissa
  high := 4 * v.mantissa + 2
  closed := v.mantissa % 2 = 0
  exponent := v.exponent - 2

def Interval.contains (i : Interval) (n : Nat) (s : Int) : Bool :=
  let point := n * (Nat.pow 10 s.toNat * Nat.pow 2 (-i.exponent).toNat)
  let unit := Nat.pow 10 (-s).toNat * Nat.pow 2 i.exponent.toNat
  if i.closed then i.low * unit ≤ point && point ≤ i.high * unit
  else i.low * unit < point && point < i.high * unit

-- The multiple of `10 ^ s` nearest to the middle, if the interval contains it or its neighbour.
def Interval.multiple? (i : Interval) (s : Int) : Option Nat :=
  let step := Nat.pow 10 s.toNat * Nat.pow 2 (-i.exponent).toNat
  let unit := Nat.pow 10 (-s).toNat * Nat.pow 2 i.exponent.toNat
  let floor := i.middle * unit / step
  let nearer := roundDiv (i.middle * unit) step
  let other := if nearer = floor then floor + 1 else floor
  if nearer ≠ 0 && i.contains nearer s then some nearer
  else if other ≠ 0 && i.contains other s then some other
  else none

-- Tries the powers of ten from `s` down, `fuel` of them.
def Interval.search (i : Interval) : Nat → Int → Scaled
  | 0, s => ⟨i.middle, s⟩
  | fuel + 1, s =>
    match i.multiple? s with
    | some n => ⟨n, s⟩
    | none => i.search fuel (s - 1)

-- A power of ten above every number with the binary exponent `e` of its leading digit.
def decimalCeiling (e : Int) : Int :=
  e * 30103 / 100000 + 2

def shortestMagnitude (v : Magnitude) : Scaled :=
  if v.mantissa = 0 then ⟨0, 0⟩
  else (Interval.ofMagnitude v).search 24 (decimalCeiling (v.mantissa.log2 + v.exponent))

/-- The fewest digits that read back as the magnitude of the finite number `x`. -/
def shortest (x : Float) : Scaled :=
  shortestMagnitude (.ofFloat x)

example : shortest 0.1 = ⟨1, -1⟩ := by decide +kernel
example : shortest 66599457.0 = ⟨66599457, 0⟩ := by decide +kernel
example : shortest 5e-324 = ⟨5, -324⟩ := by decide +kernel
example : shortest 9007199254740993.0 = ⟨9007199254740992, 0⟩ := by decide +kernel
example : shortest 1e23 = ⟨1, 23⟩ := by decide +kernel

end BenchLedger.Decimal
