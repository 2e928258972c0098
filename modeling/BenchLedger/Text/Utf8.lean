/-!
Texts by their bytes in UTF-8: cutting a text after a number of bytes, and reading bytes that need
not be well-formed.
-/

namespace BenchLedger.Text

-- The start of the text that takes up just that many bytes, if there is one.
def firstBytes? (cs : List Char) (bytes : Nat) : Option (List Char) :=
  match cs, bytes with
  | _, 0 => some []
  | [], _ + 1 => none
  | c :: cs, n + 1 =>
    if c.utf8Size ≤ n + 1 then (firstBytes? cs (n + 1 - c.utf8Size)).map (c :: ·) else none

/-- What may follow a first byte: the number of further bytes, the least and greatest second byte
that is allowed, and the bits of the first byte that count. -/
def leadByte? (b : Nat) : Option (Nat × Nat × Nat × Nat) :=
  if b < 0x80 then some (0, 0, 0, b)
  else if b < 0xC2 then none
  else if b < 0xE0 then some (1, 0x80, 0xBF, b - 0xC0)
  else if b < 0xF0 then
    some (2, if b = 0xE0 then 0xA0 else 0x80, if b = 0xED then 0x9F else 0xBF, b - 0xE0)
  else if b < 0xF5 then
    some (3, if b = 0xF0 then 0x90 else 0x80, if b = 0xF4 then 0x8F else 0xBF, b - 0xF0)
  else none

-- The continuation bytes at the start of `bytes`, at most `count` of them, the first between
-- `least` and `greatest`.
def continuation : Nat → Nat → Nat → List Nat → List Nat
  | 0, _, _, _ => []
  | _, _, _, [] => []
  | count + 1, least, greatest, b :: bytes =>
    if least ≤ b && b ≤ greatest then b :: continuation count 0x80 0xBF bytes else []

/-- The characters of a list of bytes. A longest start of a character that is not completed becomes
one replacement character, as does every byte that starts none. -/
def decodeLossy : Nat → List Nat → List Char
  | 0, _ => []
  | _, [] => []
  | fuel + 1, b :: bytes =>
    match leadByte? b with
    | none => '\ufffd' :: decodeLossy fuel bytes
    | some (count, least, greatest, bits) =>
      let more := continuation count least greatest bytes
      let c :=
        if more.length = count then
          Char.ofNat (more.foldl (fun n b => n * 64 + (b - 0x80)) bits)
        else '\ufffd'
      c :: decodeLossy fuel (bytes.drop more.length)

def ofBytes (bytes : List Nat) : String :=
  String.ofList (decodeLossy bytes.length bytes)

def toBytes (s : String) : List Nat :=
  s.toUTF8.toList.map UInt8.toNat

end BenchLedger.Text
