/-!
# UTF-8

Characters as bytes, and bytes as characters. Bytes that are no UTF-8 are replaced: each longest
run of bytes that could start a character counts as one character U+FFFD.
-/

namespace Remap.Text

def encodeChar (c : Char) : List Nat :=
  let n := c.toNat
  if n < 0x80 then [n]
  else if n < 0x800 then [0xC0 + n / 64, 0x80 + n % 64]
  else if n < 0x10000 then [0xE0 + n / 4096, 0x80 + n / 64 % 64, 0x80 + n % 64]
  else [0xF0 + n / 262144, 0x80 + n / 4096 % 64, 0x80 + n / 64 % 64, 0x80 + n % 64]

def encodeUtf8 (text : List Char) : List Nat := text.flatMap encodeChar

/-- The replacement for bytes that are no UTF-8. -/
def replacement : Char := Char.ofNat 0xFFFD

/-- A character of which some bytes are read: the bits so far, the number of bytes owed, and the
least and the greatest byte that may come next. -/
structure Pending where
  bits : Nat
  owed : Nat
  low : Nat
  high : Nat

/-- What a byte between characters is: a character of its own or the start of a longer one. -/
def startByte (b : Nat) : Char ⊕ Pending :=
  if b < 0x80 then .inl (Char.ofNat b)
  else if b < 0xC2 then .inl replacement
  else if b < 0xE0 then .inr ⟨b - 0xC0, 1, 0x80, 0xBF⟩
  else if b = 0xE0 then .inr ⟨0, 2, 0xA0, 0xBF⟩
  else if b = 0xED then .inr ⟨0xD, 2, 0x80, 0x9F⟩
  else if b < 0xF0 then .inr ⟨b - 0xE0, 2, 0x80, 0xBF⟩
  else if b = 0xF0 then .inr ⟨0, 3, 0x90, 0xBF⟩
  else if b < 0xF4 then .inr ⟨b - 0xF0, 3, 0x80, 0xBF⟩
  else if b = 0xF4 then .inr ⟨4, 3, 0x80, 0x8F⟩
  else .inl replacement

/-- The characters that bytes stand for after the bytes of a pending one. -/
def decodeFrom : Option Pending → List Nat → List Char
  | none, [] => []
  | some _, [] => [replacement]
  | none, b :: rest =>
    match startByte b with
    | .inl c => c :: decodeFrom none rest
    | .inr pending => decodeFrom (some pending) rest
  | some pending, b :: rest =>
    if pending.low ≤ b ∧ b ≤ pending.high then
      let bits := pending.bits * 64 + (b - 0x80)
      if pending.owed = 1 then Char.ofNat bits :: decodeFrom none rest
      else decodeFrom (some ⟨bits, pending.owed - 1, 0x80, 0xBF⟩) rest
    else
      replacement :: match startByte b with
        | .inl c => c :: decodeFrom none rest
        | .inr pending => decodeFrom (some pending) rest

/-- The characters that bytes stand for, with replacements for what is no UTF-8. -/
def decodeUtf8 (bytes : List Nat) : List Char := decodeFrom none bytes

end Remap.Text
