import BenchLedger.Decimal.Numeral
import BenchLedger.Text.Blank

/-!
Ranges as text: the uncertainty of a value, usually behind a plus-minus sign.
-/

namespace BenchLedger.RangeText

-- What may stand before the number: a plus-minus sign, its two spellings in ASCII, or nothing.
def dropSign (cs : List Char) : List Char :=
  match Text.after? "±" cs with
  | some rest => rest
  | none =>
    match Text.after? "+/-" cs with
    | some rest => rest
    | none => (Text.after? "+-" cs).getD cs

/-- The number of a range: a numeral behind an optional sign, with blanks around both. -/
def read? (s : String) : Option Float :=
  let cs := Text.dropBlanks (dropSign (Text.dropBlanks s.toList))
  match Decimal.Numeral.read? cs with
  | some (n, rest) => if rest.all Text.isBlank then some (n.value false) else none
  | none => none

def write (range : Float) : String :=
  "± " ++ Decimal.plainText range

end BenchLedger.RangeText
