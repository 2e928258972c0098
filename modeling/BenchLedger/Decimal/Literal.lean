import BenchLedger.Decimal.Numeral
import BenchLedger.Text.Blank

/-!
Numbers as people write them: a sign, digits on either side of a point, a power of ten, and the
names of infinity and of what is not a number. A literal takes up its whole text.
-/

namespace BenchLedger.Decimal

-- A numeral that may lack the digits on one side of its point.
def Numeral.ofLiteral? (cs : List Char) : Option Numeral :=
  let (whole, rest) := spanDigits cs
  let (fraction, rest) := match rest with
    | '.' :: rest => spanDigits rest
    | rest => ([], rest)
  let (power, rest) := readPower rest
  if (whole ++ fraction).isEmpty || !rest.isEmpty then none else some ⟨whole, fraction, power⟩

def isInfinityName (name : String) : Bool :=
  name == "inf" || name == "infinity"

/-- The number that a literal writes; names count in any case. -/
def readLiteral? (cs : List Char) : Option Float :=
  let (negative, cs) := readSign cs
  let name := Text.asciiLower (String.ofList cs)
  if isInfinityName name then some (ofIndex negative infinityIndex)
  else if name == "nan" then some (ofIndex negative (infinityIndex + Nat.pow 2 51))
  else (Numeral.ofLiteral? cs).map (·.value negative)

-- Whole numbers without a sign other than plus.
def readNat? (cs : List Char) : Option Nat :=
  let digits := match cs with
    | '+' :: ds => ds
    | ds => ds
  if !digits.isEmpty && digits.all Char.isDigit then some (digitsValue digits) else none

/-- The nearest whole number, a half going up; what is not positive goes to zero, and what is not
below `limit` to the last number below it. -/
def wholeBelow (limit : Nat) (x : Float) : Nat :=
  if x.isNaN || isNegative x then 0
  else if x.isInf then limit - 1
  else
    let (num, den) := (Magnitude.ofFloat x).fraction
    min ((2 * num + den) / (2 * den)) (limit - 1)

end BenchLedger.Decimal
