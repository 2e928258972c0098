import BenchLedger.Json.Reader

/-!
Decoding of JSON into the library's records. A record is an object, in which unknown members are
skipped and a known one must not come twice, or an array of its fields in order. The first thing
that goes wrong decides between the two kinds of failure.
-/

namespace BenchLedger.Json

/-- Why a value was not decoded. -/
inductive Failure where
  -- The text is not JSON, or writes a number or string that has no value.
  | malformed
  -- JSON of another shape than the one expected.
  | mismatched
  deriving DecidableEq, Repr

mutual

-- The value runs into the end of the readable text.
def isCut : Json → Bool
  | .cut => true
  | .array items => itemsCut items
  | .object members => membersCut members
  | _ => false

def itemsCut : List Json → Bool
  | [] => false
  | j :: js => isCut j || itemsCut js

def membersCut : List (String × Json) → Bool
  | [] => false
  | (_, j) :: ms => isCut j || membersCut ms

end

-- The failure of a value where another kind of value is expected.
def misfit : Json → Failure
  | .cut => .malformed
  | .unpaired => .malformed
  | .number lexeme => if (lexemeValue lexeme).isFinite then .mismatched else .malformed
  | _ => .mismatched

-- Nothing is asked of a skipped value but that its text is JSON.
def skip (j : Json) : Except Failure Unit :=
  if j.isCut then .error .malformed else .ok ()

def asString : Json → Except Failure String
  | .string s => .ok s
  | j => .error j.misfit

def asBool : Json → Except Failure Bool
  | .bool b => .ok b
  | j => .error j.misfit

-- Numbers of any size below infinity.
def asFloat : Json → Except Failure Float
  | .number lexeme =>
    let x := lexemeValue lexeme
    if x.isFinite then .ok x else .error .malformed
  | j => .error j.misfit

def asInt : Json → Except Failure Int
  | .number lexeme =>
    match lexemeInt? lexeme with
    | some n =>
      if -0x8000000000000000 ≤ n ∧ n < 0x8000000000000000 then .ok n
      else .error (Json.number lexeme).misfit
    | none => .error (Json.number lexeme).misfit
  | j => .error j.misfit

def asNat : Json → Except Failure Nat
  | .number lexeme =>
    match lexemeInt? lexeme with
    | some n =>
      if 0 ≤ n ∧ n < 0x10000000000000000 then .ok n.toNat
      else .error (Json.number lexeme).misfit
    | none => .error (Json.number lexeme).misfit
  | j => .error j.misfit

-- No value is written `null`.
def asOption {α : Type} (decode : Json → Except Failure α) : Json → Except Failure (Option α)
  | .null => .ok none
  | j => (decode j).map some

def asList {α : Type} (decode : Json → Except Failure α) : Json → Except Failure (List α)
  | .array items => items.mapM decode
  | j => .error j.misfit

def asMembers {α : Type} (decode : Json → Except Failure α) :
    Json → Except Failure (List (String × α))
  | .object members => members.mapM fun (k, j) => (decode j).map (k, ·)
  | j => .error j.misfit

-- One of a list of names, as a string or as the only member of an object that holds nothing.
def asName {α : Type} (names : List (String × α)) : Json → Except Failure α
  | .string s =>
    match names.lookup s with
    | some a => .ok a
    | none => .error .mismatched
  | .object [(s, .null)] =>
    match names.lookup s with
    | some a => .ok a
    | none => .error .mismatched
  | j => if j.isCut then .error .malformed else .error j.misfit

mutual

/-- The value can be kept for later decoding: all of it has a value, and its containers nest at
most `levels` deep. -/
def isKeepable (levels : Nat) : Json → Bool
  | .cut => false
  | .unpaired => false
  | .number lexeme => (lexemeValue lexeme).isFinite
  | .array items =>
    match levels with
    | 0 => false
    | n + 1 => itemsKeepable n items
  | .object members =>
    match levels with
    | 0 => false
    | n + 1 => membersKeepable n members
  | _ => true

def itemsKeepable (levels : Nat) : List Json → Bool
  | [] => true
  | j :: js => isKeepable levels j && itemsKeepable levels js

def membersKeepable (levels : Nat) : List (String × Json) → Bool
  | [] => true
  | (_, j) :: ms => isKeepable levels j && membersKeepable levels ms

end

def keptLevels : Nat := 127

/-- How a record is decoded field by field. -/
structure Shape (α : Type) where
  -- The fields in the order of the array spelling.
  fields : List String
  -- The fields that an object must have.
  required : List String
  -- The number of items that an array must have.
  arity : Nat
  -- The record before any field is decoded.
  empty : α
  -- Decodes one field into the record.
  set : String → Json → α → Except Failure α

namespace Shape

variable {α : Type}

def decodeMembers (shape : Shape α) (record : α) (seen : List String) :
    List (String × Json) → Except Failure α
  | [] => if shape.required.all seen.contains then .ok record else .error .mismatched
  | (name, j) :: members =>
    if shape.fields.contains name then
      if seen.contains name then .error .mismatched
      else do
        let record ← shape.set name j record
        shape.decodeMembers record (name :: seen) members
    else do
      skip j
      shape.decodeMembers record seen members

def decodeItems (shape : Shape α) (record : α) (filled : Nat) :
    List String → List Json → Except Failure α
  | _, [] => if shape.arity ≤ filled then .ok record else .error .mismatched
  | [], _ :: _ => .error .malformed
  | name :: names, j :: items => do
    let record ← shape.set name j record
    shape.decodeItems record (filled + 1) names items

def decode (shape : Shape α) : Json → Except Failure α
  | .object members => shape.decodeMembers shape.empty [] members
  | .array items => shape.decodeItems shape.empty 0 shape.fields items
  | j => .error j.misfit

end Shape

def readAs {α : Type} (decode : Json → Except Failure α) (s : String) : Except Failure α :=
  decode (read s)

end BenchLedger.Json
