import BenchLedger.Decimal.Shortest

/-!
The layout of a number's digits as text: positional or with a power of ten, and the texts of the
values that have no digits.
-/

namespace BenchLedger.Decimal

-- The decimal digits of a natural number, the highest first; zero is `0`.
def digitsOf (n : Nat) : List Char :=
  (Nat.toDigits 10 n)

def natText (n : Nat) : String :=
  String.ofList (digitsOf n)

def intText : Int → String
  | .ofNat n => natText n
  | .negSucc n => "-" ++ natText (n + 1)

def padded (width n : Nat) : List Char :=
  List.replicate (width - (digitsOf n).length) '0' ++ digitsOf n

/-- The decisions that a format of numbers takes beyond the choice of digits. -/
structure Layout where
  -- Powers of ten of the leading digit that are written without an exponent.
  positional : Int → Bool
  -- Whole numbers end in `.0`.
  pointed : Bool
  notANumber : List Char
  infinity : List Char

-- Digits alone, never an exponent, and no point where there is no fraction.
def plain : Layout :=
  ⟨fun _ => true, false, "NaN".toList, "inf".toList⟩

-- The digits with the point in their midst or zeros around them.
def Scaled.positional (d : Scaled) (pointed : Bool) : List Char :=
  let ds := digitsOf d.digits
  if 0 ≤ d.exponent then
    ds ++ List.replicate (if d.digits = 0 then 0 else d.exponent.toNat) '0' ++
      (if pointed then ['.', '0'] else [])
  else
    let places := (-d.exponent).toNat
    let filled := List.replicate (places + 1 - ds.length) '0' ++ ds
    filled.take (filled.length - places) ++ '.' :: filled.drop (filled.length - places)

-- One digit, the others after a point, and the power of ten with its sign.
def Scaled.scientific (d : Scaled) : List Char :=
  let ds := digitsOf d.digits
  let e := d.exponent + ds.length - 1
  let mantissa := match ds with
    | [] => []
    | [c] => [c]
    | c :: cs => c :: '.' :: cs
  mantissa ++ 'e' :: (if 0 ≤ e then '+' else '-') :: digitsOf e.natAbs

def Scaled.leading (d : Scaled) : Int :=
  if d.digits = 0 then 0 else d.exponent + (digitsOf d.digits).length - 1

def Scaled.layOut (l : Layout) (d : Scaled) : List Char :=
  if l.positional d.leading then d.positional l.pointed else d.scientific

def Layout.write (l : Layout) (x : Float) : List Char :=
  if x.isNaN then l.notANumber
  else
    (if isNegative x then ['-'] else []) ++
      (if x.isInf then l.infinity else (shortest x).layOut l)

def plainText (x : Float) : String :=
  String.ofList (plain.write x)

example : plainText 0.0000001 = "0.0000001" := by decide +kernel
example : plainText 1e21 = "1000000000000000000000" := by decide +kernel
example : plainText (-0.0) = "-0" := by decide +kernel
example : plainText 123456789.125 = "123456789.125" := by decide +kernel

end BenchLedger.Decimal
