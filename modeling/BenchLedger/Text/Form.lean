import BenchLedger.Json.Reader
import BenchLedger.Text.Split
import BenchLedger.Text.Utf8

/-!
Texts with bytes in hexadecimal behind a percent sign, and forms made of them: pairs of names and
values between ampersands, with `+` for a blank.
-/

namespace BenchLedger.Text

/-- A percent sign and two hexadecimal digits stand for a byte; a percent sign without digits stands
for itself. -/
def decodePercent : List Nat → List Nat
  | [] => []
  | 37 :: a :: b :: bytes =>
    match Json.hexValue? (Char.ofNat a), Json.hexValue? (Char.ofNat b) with
    | some high, some low => (16 * high + low) :: decodePercent bytes
    | _, _ => 37 :: decodePercent (a :: b :: bytes)
  | byte :: bytes => byte :: decodePercent bytes

def ofPercent (cs : List Char) : String :=
  ofBytes (decodePercent (toBytes (String.ofList cs)))

def ofForm (cs : List Char) : String :=
  ofPercent (cs.map fun c => if c == '+' then ' ' else c)

example : ofForm "a+b%20c".toList = "a b c" := by decide +kernel
example : ofForm "%zz%E5%90%8D".toList = "%zz名" := by decide +kernel

-- The pairs of a form in their order; a name without `=` has the empty text as its value.
def readForm (cs : List Char) : List (String × String) :=
  ((splitAt '&' cs).filter (!·.isEmpty)).map fun piece =>
    let (name, value) := cutAt '=' piece
    (ofForm name, ofForm (value.getD []))

end BenchLedger.Text
