import BenchLedger.Decimal.Layout

/-!
Numbers with a set number of decimal places. The exact value is rounded, a half to the even
neighbour, and the sign stays even where only zeros are left.
-/

namespace BenchLedger.Decimal

def inPlaces (places : Nat) (x : Float) : Nat :=
  let (num, den) := (Magnitude.ofFloat x).fraction
  roundDiv (num * Nat.pow 10 places) den

-- The last `places` digits of `n` stand behind the point.
def withPoint (places n : Nat) : List Char :=
  if places = 0 then digitsOf n
  else digitsOf (n / Nat.pow 10 places) ++ '.' :: padded places (n % Nat.pow 10 places)

-- With `signed`, a number that is not negative has a plus sign.
def fixed (places : Nat) (signed : Bool) (x : Float) : String :=
  if x.isNaN then "NaN"
  else
    let sign := if isNegative x then ['-'] else if signed then ['+'] else []
    let digits := if x.isInf then "inf".toList else withPoint places (inPlaces places x)
    String.ofList (sign ++ digits)

example : fixed 2 false 0.125 = "0.12" := by decide +kernel
example : fixed 2 false 0.375 = "0.38" := by decide +kernel
example : fixed 2 true (-0.001) = "-0.00" := by decide +kernel
example : fixed 0 false 2.5 = "2" := by decide +kernel

end BenchLedger.Decimal
