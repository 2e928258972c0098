import BenchLedger.Decimal.Literal
import BenchLedger.Json.Decode
import BenchLedger.Text.Lowercase

/-!
Entries of configuration sources: plain values, lists, and tables of named entries. A value is
read as the kind that its setting asks for, so that a number may be written as text.
-/

namespace BenchLedger

inductive Entry where
  | nothing
  | flag (value : Bool)
  -- Within 64 bits with sign.
  | whole (value : Int)
  | decimal (value : Float)
  | text (value : String)
  | list (items : List Entry)
  -- No two members have one name.
  | table (members : List (String × Entry))
  deriving Inhabited

namespace Entry

def switch? (s : String) : Option Bool :=
  match Text.lowercase s with
  | "true" | "on" | "yes" => some true
  | "false" | "off" | "no" => some false
  | _ => none

def asBool? : Entry → Option Bool
  | flag b => some b
  | whole n => some (n != 0)
  | decimal x => some (x != 0)
  | text s => if s == "1" then some true else if s == "0" then some false else switch? s
  | _ => none

-- A whole number below `limit`, which is at most 2 ^ 64.
def asNat? (limit : Nat) (e : Entry) : Option Nat := do
  let n ← match e with
    | flag b => some b.toNat
    | whole n => if 0 ≤ n then some n.toNat else none
    | decimal x => some (Decimal.wholeBelow (Nat.pow 2 64) x)
    | text s => (switch? s).map Bool.toNat <|> Decimal.readNat? s.toList
    | _ => none
  if n < limit then some n else none

def asFloat? : Entry → Option Float
  | flag b => some (if b then 1 else 0)
  | whole n => some (Decimal.nearest (decide (n < 0)) n.natAbs 0)
  | decimal x => some x
  | text s => ((switch? s).map fun b => if b then 1 else 0) <|> Decimal.readLiteral? s.toList
  | _ => none

def asText? : Entry → Option String
  | flag b => some (if b then "true" else "false")
  | whole n => some (Decimal.intText n)
  | decimal x => some (Decimal.plainText x)
  | text s => some s
  | _ => none

-- One of a list of names in any case, as text or as the only name of a table.
def asName? {α : Type} (names : List (String × α)) (e : Entry) : Option α := do
  let name ← match e with
    | text s => some s
    | table [(name, _)] => some name
    | _ => none
  names.lookup (Text.lowercase name)

def asOption? {α : Type} (decode : Entry → Option α) : Entry → Option (Option α)
  | nothing => some none
  | e => (decode e).map some

def members? : Entry → Option (List (String × Entry))
  | table members => some members
  | _ => none

-- The value of a setting, or `default` where the section has no such setting.
def take {α : Type} (members : List (String × Entry)) (name : String) (default : α)
    (decode : Entry → Option α) : Option α :=
  match members.lookup name with
  | some e => decode e
  | none => some default

/-- The members with one entry set, in its old place or at the end. -/
def assign (members : List (String × Entry)) (name : String) (e : Entry) :
    List (String × Entry) :=
  match members with
  | [] => [(name, e)]
  | (n, old) :: rest => if n == name then (n, e) :: rest else (n, old) :: assign rest name e

theorem lookup_assign_self (members : List (String × Entry)) (name : String) (e : Entry) :
    (assign members name e).lookup name = some e := by
  induction members with
  | nil => simp [assign]
  | cons m rest ih =>
    obtain ⟨n, old⟩ := m
    by_cases h : n = name
    · simp [assign, h]
    · have h' : (name == n) = false := by simpa using fun he : name = n => h he.symm
      simp [assign, h, List.lookup_cons, h', ih]

mutual

-- Of two members of an object with one name the later counts.
def ofJson : Json → Entry
  | .bool b => flag b
  | .number lexeme =>
    match Json.lexemeInt? lexeme with
    | some n =>
      if -0x8000000000000000 ≤ n ∧ n < 0x8000000000000000 then whole n
      else decimal (Json.lexemeValue lexeme)
    | none => decimal (Json.lexemeValue lexeme)
  | .string s => text s
  | .array items => list (ofItems items)
  | .object members => table (ofMembers [] members)
  | _ => nothing

def ofItems : List Json → List Entry
  | [] => []
  | j :: js => ofJson j :: ofItems js

def ofMembers (before : List (String × Entry)) : List (String × Json) → List (String × Entry)
  | [] => before
  | (name, j) :: ms => ofMembers (assign before name (ofJson j)) ms

end

end Entry

end BenchLedger
