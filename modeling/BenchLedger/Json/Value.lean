import BenchLedger.Json.Number

/-!
JSON values as a text gives them: object members in order and with repetitions, numbers as written.
Two further forms stand for what a reader may skip but not decode: a string with half a surrogate
pair, and the place where the text stops being JSON.
-/

namespace BenchLedger

inductive Json where
  | null
  | bool (value : Bool)
  -- The number's characters as they stand in the text.
  | number (lexeme : List Char)
  | string (text : String)
  -- A string in which a surrogate escape has no partner.
  | unpaired
  | array (items : List Json)
  | object (members : List (String × Json))
  -- From here on the text is not JSON; nothing follows it.
  | cut
  deriving Repr, BEq, Inhabited

namespace Json

-- Shortest digits, positional for powers of ten from -5 to 15, with `.0` on whole numbers.
def numberLayout : Decimal.Layout where
  positional e := -5 ≤ e ∧ e < 16
  pointed := true
  notANumber := "null".toList
  infinity := "null".toList

def ofFloat (x : Float) : Json :=
  if x.isFinite then .number (numberLayout.write x) else .null

def ofInt (n : Int) : Json :=
  .number (Decimal.intText n).toList

def ofNat (n : Nat) : Json :=
  .number (Decimal.digitsOf n)

def ofStrings (texts : List String) : Json :=
  .array (texts.map .string)

-- A member that is left out when it has no value.
def optional (name : String) (value : Option Json) : List (String × Json) :=
  match value with
  | some j => [(name, j)]
  | none => []

/-- The value of a number as its reader computes it; it may be infinite. -/
def lexemeValue (lexeme : List Char) : Float :=
  let (negative, digits) := match lexeme with
    | '-' :: cs => (true, cs)
    | cs => (false, cs)
  match Decimal.Numeral.read? digits with
  | some (n, _) => (Parts.ofNumeral n).value negative
  | none => 0

/-- The whole number that a lexeme writes without point and exponent. The lexeme `-0` writes a
number with a sign and is not whole. -/
def lexemeInt? : List Char → Option Int
  | '-' :: cs => if cs.all Char.isDigit && cs != ['0'] then some (-Decimal.digitsValue cs) else none
  | cs => if cs.all Char.isDigit then some (Decimal.digitsValue cs) else none

-- The last member of that name.
def member? (j : Json) (name : String) : Option Json :=
  match j with
  | .object members => (members.reverse.find? (·.1 == name)).map (·.2)
  | _ => none

end Json

end BenchLedger
