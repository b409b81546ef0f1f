import Remap.Text.Utf8

/-!
# Form encoding

Names and values of a query string are bytes. Letters, digits and `*-._` stand for themselves, a
space is a plus sign, and every other byte is a percent sign with two hexadecimal digits.
-/

namespace Remap.Query

/-- The value of a hexadecimal digit. -/
def hexValue? (b : Nat) : Option Nat :=
  if 0x30 ≤ b ∧ b ≤ 0x39 then some (b - 0x30)
  else if 0x41 ≤ b ∧ b ≤ 0x46 then some (b - 0x37)
  else if 0x61 ≤ b ∧ b ≤ 0x66 then some (b - 0x57)
  else none

/-- A percent sign with two digits is a byte, and a plus sign is a space. A percent sign that is
not followed by two digits stands for itself. -/
def decodeBytes : List Nat → List Nat
  | [] => []
  | 0x25 :: high :: low :: rest =>
    match hexValue? high, hexValue? low with
    | some h, some l => (16 * h + l) :: decodeBytes rest
    | _, _ => 0x25 :: decodeBytes (high :: low :: rest)
  | b :: rest => (if b = 0x2B then 0x20 else b) :: decodeBytes rest

/-- The text that an encoded name or value stands for. -/
def decode (text : List Char) : List Char := Text.decodeUtf8 (decodeBytes (Text.encodeUtf8 text))

def hexDigit (n : Nat) : Char := if n < 10 then Char.ofNat (48 + n) else Char.ofNat (55 + n)

/-- Whether a byte stands for itself. -/
def isPlain (b : Nat) : Bool :=
  (0x30 ≤ b && b ≤ 0x39) || (0x41 ≤ b && b ≤ 0x5A) || (0x61 ≤ b && b ≤ 0x7A)
    || b == 0x2A || b == 0x2D || b == 0x2E || b == 0x5F

def encodeByte (b : Nat) : List Char :=
  if isPlain b then [Char.ofNat b]
  else if b = 0x20 then ['+']
  else ['%', hexDigit (b / 16), hexDigit (b % 16)]

/-- A name or value as it is written. -/
def encode (text : List Char) : List Char := (Text.encodeUtf8 text).flatMap encodeByte

/-- The name and the value of a piece between ampersands, split at the first equals sign. -/
def decodePair (piece : List Char) : String × String :=
  let (name, value) := piece.span (· != '=')
  (String.ofList (decode name), String.ofList (decode (value.drop 1)))

/-- A name with its value as it is written. -/
def encodePair (pair : String × String) : List Char :=
  encode pair.1.toList ++ '=' :: encode pair.2.toList

end Remap.Query
