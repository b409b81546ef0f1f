import Remap.Value
import Remap.Decimal.Literal
import Remap.Text.Basic

/-!
# Reading JSON

The reader goes through the text once. A fault names its cause and the number of bytes that are
left after the place it is reported at, from which the line and the column follow. A fault found
by looking at the next character is reported behind that character's first byte.

A number is read with a significand that must fit 64 bits; what does not fit only moves the
decimal point. The significand is then scaled by a power of ten in double arithmetic, so the
result may differ from the nearest double in its last bits.
-/

namespace Remap.Json

/-- Why a text is no JSON. -/
inductive Cause where
  | unclosedList
  | unclosedObject
  | unclosedString
  | missingValue
  | expectedColon
  | expectedListSeparator
  | expectedObjectSeparator
  | expectedWord
  | expectedValue
  | invalidEscape
  | invalidNumber
  | numberOutOfRange
  | loneSurrogate
  | unfinishedSurrogate
  | controlCharacter
  | keyNotString
  | trailingComma
  | trailingText
  | tooDeep
deriving DecidableEq, Repr

def Cause.message : Cause → String
  | unclosedList => "EOF while parsing a list"
  | unclosedObject => "EOF while parsing an object"
  | unclosedString => "EOF while parsing a string"
  | missingValue => "EOF while parsing a value"
  | expectedColon => "expected \x60:\x60"
  | expectedListSeparator => "expected \x60,\x60 or \x60]\x60"
  | expectedObjectSeparator => "expected \x60,\x60 or \x60\x7d\x60"
  | expectedWord => "expected ident"
  | expectedValue => "expected value"
  | invalidEscape => "invalid escape"
  | invalidNumber => "invalid number"
  | numberOutOfRange => "number out of range"
  | loneSurrogate => "lone leading surrogate in hex escape"
  | unfinishedSurrogate => "unexpected end of hex escape"
  | controlCharacter => "control character (\\u0000-\\u001F) found while parsing a string"
  | keyNotString => "key must be a string"
  | trailingComma => "trailing comma"
  | trailingText => "trailing characters"
  | tooDeep => "recursion limit exceeded"

/-- A cause and the number of bytes left after the place where it is reported. -/
structure Fault where
  cause : Cause
  left : Nat
deriving DecidableEq, Repr

/-- A fault behind all that has been consumed. -/
def failAt {α : Type} (cause : Cause) (rest : List Char) : Except Fault α :=
  .error ⟨cause, Text.byteLength rest⟩

/-- A fault behind the first byte of the next character. -/
def failNext {α : Type} (cause : Cause) (rest : List Char) : Except Fault α :=
  .error ⟨cause, Text.byteLength rest - 1⟩

/-- Whether a character may stand between the parts of a JSON text. -/
def isSpace (c : Char) : Bool := c = ' ' ∨ c = '\n' ∨ c = '\t' ∨ c = '\r'

def skipSpace (text : List Char) : List Char := text.dropWhile isSpace

/-- The rest of a word after its first letter. -/
def readWord {α : Type} (value : α) : List Char → List Char → Except Fault (α × List Char)
  | [], text => .ok (value, text)
  | _ :: _, [] => failAt .missingValue []
  | expected :: word, c :: rest =>
    if c = expected then readWord value word rest else failNext .expectedWord (c :: rest)

/-- The value of a hexadecimal digit. -/
def hexValue? (c : Char) : Option Nat :=
  if '0' ≤ c ∧ c ≤ '9' then some (c.toNat - 48)
  else if 'a' ≤ c ∧ c ≤ 'f' then some (c.toNat - 87)
  else if 'A' ≤ c ∧ c ≤ 'F' then some (c.toNat - 55)
  else none

/-- The number that four hexadecimal digits denote. -/
def hexFour? (a b c d : Char) : Option Nat := do
  let a ← hexValue? a
  let b ← hexValue? b
  let c ← hexValue? c
  let d ← hexValue? d
  some (((a * 16 + b) * 16 + c) * 16 + d)

/-- The code unit written by four hexadecimal digits. The digits are looked for in the next four
bytes, whatever characters those belong to. -/
def readHex (text : List Char) : Except Fault (Nat × List Char) :=
  let invalid (text : List Char) : Except Fault (Nat × List Char) :=
    .error ⟨.invalidEscape, Text.byteLength text - 4⟩
  if Text.byteLength (text.take 4) < 4 then failAt .unclosedString []
  else match text with
    | a :: b :: c :: d :: rest =>
      match hexFour? a b c d with
      | some unit => .ok (unit, rest)
      | none => invalid text
    | _ => invalid text

/-- The character written by `\u` and four digits; a leading surrogate needs a trailing one. -/
def readUnicode (text : List Char) : Except Fault (Char × List Char) := do
  let (unit, rest) ← readHex text
  if 0xDC00 ≤ unit ∧ unit ≤ 0xDFFF then failAt .loneSurrogate rest
  else if unit < 0xD800 ∨ 0xDBFF < unit then .ok (Char.ofNat unit, rest)
  else match rest with
    | [] => failAt .unclosedString []
    | ['\\'] => failAt .unclosedString []
    | '\\' :: 'u' :: rest =>
      let (second, rest) ← readHex rest
      if second < 0xDC00 ∨ 0xDFFF < second then failAt .loneSurrogate rest
      else .ok (Char.ofNat (0x10000 + (unit - 0xD800) * 0x400 + (second - 0xDC00)), rest)
    | '\\' :: rest => failNext .unfinishedSurrogate rest
    | rest => failNext .unfinishedSurrogate rest

/-- The character written by a backslash and a letter. -/
def simpleEscape? (c : Char) : Option Char :=
  if c = '"' ∨ c = '\\' ∨ c = '/' then some c
  else if c = 'b' then some '\x08'
  else if c = 'f' then some '\x0c'
  else if c = 'n' then some '\n'
  else if c = 'r' then some '\r'
  else if c = 't' then some '\t'
  else none

/-- One character of a string, or the quote that closes it. -/
def readChar : List Char → Except Fault (Option Char × List Char)
  | [] => failAt .unclosedString []
  | '"' :: rest => .ok (none, rest)
  | ['\\'] => failAt .unclosedString []
  | '\\' :: 'u' :: rest => (readUnicode rest).map fun (c, rest) => (some c, rest)
  | '\\' :: c :: rest =>
    match simpleEscape? c with
    | some plain => .ok (some plain, rest)
    | none => failNext .invalidEscape (c :: rest)
  | c :: rest => if c.toNat < 32 then failAt .controlCharacter rest else .ok (some c, rest)

/-- The characters of a string up to its closing quote, behind those already read. The first text
is no shorter than what is left, and each character takes one step along it. -/
def readChars : List Char → List Char → List Char → Except Fault (String × List Char)
  | [], _, text => failAt .unclosedString text
  | _ :: steps, read, text =>
    match readChar text with
    | .error fault => .error fault
    | .ok (none, rest) => .ok (String.ofList read.reverse, rest)
    | .ok (some c, rest) => readChars steps (c :: read) rest

/-- A string after its opening quote. -/
def readString (text : List Char) : Except Fault (String × List Char) := readChars text [] text

def maxSignificand : Nat := UInt64.size - 1

/-- The leading digits of a text that still fit a significand, and the text after them. The
significand stops before the digit that would overflow it. -/
def takeDigits (significand : Nat) : List Char → Nat × Nat × List Char
  | [] => (significand, 0, [])
  | c :: rest =>
    if Decimal.isDigit c then
      let next := 10 * significand + Decimal.digitValue c
      if next > maxSignificand then (significand, 0, c :: rest)
      else
        let (total, taken, rest) := takeDigits next rest
        (total, taken + 1, rest)
    else (significand, 0, c :: rest)

/-- Whether a text goes on with a digit. -/
def startsWithDigit : List Char → Bool
  | [] => false
  | c :: _ => Decimal.isDigit c

/-- The double nearest to a power of ten up to `10 ^ 308`. -/
def powerOfTen (n : Nat) : Float :=
  match Decimal.Binary64.nearest? false (Nat.pow 10 n) 1 with
  | some b => b.toFloat
  | none => 1.0 / 0.0

/-- `f · 10 ^ exponent` in double arithmetic, scaled in steps of at most `10 ^ 308`; none if it is
infinite. -/
def scale? : Nat → Float → Int → Option Float
  | 0, f, _ => some f
  | fuel + 1, f, exponent =>
    if exponent.natAbs ≤ 308 then
      if 0 ≤ exponent then
        let scaled := f * powerOfTen exponent.toNat
        if scaled.isInf then none else some scaled
      else some (f / powerOfTen exponent.natAbs)
    else if f == 0.0 then some f
    else if 0 ≤ exponent then none
    else scale? fuel (f / powerOfTen 308) (exponent + 308)

/-- The number `± significand · 10 ^ exponent`. Four steps bring every double to zero. -/
def finish (negative : Bool) (significand : Nat) (exponent : Int) (rest : List Char) :
    Except Fault (Float × List Char) :=
  match scale? 5 (UInt64.ofNat significand).toFloat exponent with
  | some f => .ok (if negative then -f else f, rest)
  | none => failAt .numberOutOfRange rest

/-- The greatest exponent that is read digit by digit. -/
def maxExponent : Nat := Nat.pow 2 31 - 1

/-- The leading digits of an exponent that stay within `maxExponent`. When they do not, the last
part is the text after the digit that went beyond. -/
def readExponentDigits (exponent : Nat) : List Char → Nat × Option (List Char) × List Char
  | [] => (exponent, none, [])
  | c :: rest =>
    if Decimal.isDigit c then
      let next := 10 * exponent + Decimal.digitValue c
      if next > maxExponent then (exponent, some rest, rest)
      else readExponentDigits next rest
    else (exponent, none, c :: rest)

/-- An exponent after its mark, and the number it completes. -/
def readExponent (negative : Bool) (significand : Nat) (start : Int) (text : List Char) :
    Except Fault (Float × List Char) :=
  let (down, text) := Decimal.Literal.readExponentSign text
  match text with
  | [] => failAt .missingValue []
  | c :: rest =>
    if Decimal.isDigit c then
      match readExponentDigits (Decimal.digitValue c) rest with
      | (_, some beyond, _) =>
        if significand ≠ 0 ∧ ¬ down then failAt .numberOutOfRange beyond
        else .ok (if negative then -0.0 else 0.0, beyond.dropWhile Decimal.isDigit)
      | (exponent, none, rest) =>
        finish negative significand (if down then start - exponent else start + exponent) rest
    else failNext .invalidNumber (c :: rest)

/-- The end of a number after its digits: an exponent or nothing. -/
def readTail (negative : Bool) (significand : Nat) (exponent : Int) :
    List Char → Except Fault (Float × List Char)
  | [] => finish negative significand exponent []
  | c :: rest =>
    if c = 'e' ∨ c = 'E' then readExponent negative significand exponent rest
    else finish negative significand exponent (c :: rest)

def readFraction (negative : Bool) (significand : Nat) (start : Int) (text : List Char) :
    Except Fault (Float × List Char) :=
  let (significand, taken, rest) := takeDigits significand text
  if startsWithDigit rest then
    readTail negative significand (start - taken) (rest.dropWhile Decimal.isDigit)
  else if taken = 0 then
    match rest with
    | [] => failNext .missingValue rest
    | _ :: _ => failNext .invalidNumber rest
  else readTail negative significand (start - taken) rest

def readNumber (negative : Bool) : List Char → Except Fault (Float × List Char)
  | [] => failAt .missingValue []
  | c :: rest =>
    if c = '0' then
      if startsWithDigit rest then failNext .invalidNumber rest
      else match rest with
        | '.' :: rest => readFraction negative 0 0 rest
        | rest => readTail negative 0 0 rest
    else if Decimal.isDigit c then
      let (significand, _, rest) := takeDigits (Decimal.digitValue c) rest
      let beyond := rest.takeWhile Decimal.isDigit
      match rest.drop beyond.length with
      | '.' :: rest => readFraction negative significand beyond.length rest
      | rest => readTail negative significand beyond.length rest
    else failNext .invalidNumber (c :: rest)

def readColon (text : List Char) : Except Fault (List Char) :=
  match skipSpace text with
  | ':' :: rest => .ok rest
  | [] => failNext .unclosedObject []
  | rest => failNext .expectedColon rest

/-- The key of an entry, up to and including its colon. -/
def readKey : List Char → Except Fault (String × List Char)
  | [] => failNext .missingValue []
  | '"' :: rest => do
    let (key, rest) ← readString rest
    let rest ← readColon rest
    .ok (key, rest)
  | rest => failNext .keyNotString rest

mutual

/-- A value. `room` is how many more containers may be opened around it. -/
def readValue : Nat → Nat → List Char → Except Fault (Value × List Char)
  | 0, _, text => failNext .missingValue text
  | fuel + 1, room, text =>
    match skipSpace text with
    | [] => failNext .missingValue []
    | 'n' :: rest => readWord .null ['u', 'l', 'l'] rest
    | 't' :: rest => readWord (.bool true) ['r', 'u', 'e'] rest
    | 'f' :: rest => readWord (.bool false) ['a', 'l', 's', 'e'] rest
    | '-' :: rest => (readNumber true rest).map fun (n, rest) => (.number n, rest)
    | '"' :: rest => (readString rest).map fun (s, rest) => (.string s, rest)
    | '[' :: rest =>
      match room with
      | 0 => failNext .tooDeep ('[' :: rest)
      | room + 1 =>
        match skipSpace rest with
        | [] => failNext .unclosedList []
        | ']' :: rest => .ok (.array [], rest)
        | rest => do
          let (first, rest) ← readValue fuel room rest
          let (items, rest) ← readItems fuel room [first] rest
          .ok (.array items, rest)
    | '\x7b' :: rest =>
      match room with
      | 0 => failNext .tooDeep ('\x7b' :: rest)
      | room + 1 =>
        match skipSpace rest with
        | [] => failNext .unclosedObject []
        | '\x7d' :: rest => .ok (.object [], rest)
        | rest => do
          let (key, rest) ← readKey rest
          let (value, rest) ← readValue fuel room rest
          let (fields, rest) ← readFields fuel room [(key, value)] rest
          .ok (.object fields, rest)
    | c :: rest =>
      if Decimal.isDigit c then
        (readNumber false (c :: rest)).map fun (n, rest) => (.number n, rest)
      else failNext .expectedValue (c :: rest)

/-- The items of an array after the first, behind those already read in reverse. -/
def readItems : Nat → Nat → List Value → List Char → Except Fault (List Value × List Char)
  | 0, _, _, text => failNext .unclosedList text
  | fuel + 1, room, read, text =>
    match skipSpace text with
    | [] => failNext .unclosedList []
    | ']' :: rest => .ok (read.reverse, rest)
    | ',' :: rest =>
      match skipSpace rest with
      | [] => failNext .missingValue []
      | ']' :: rest => failNext .trailingComma (']' :: rest)
      | rest => do
        let (item, rest) ← readValue fuel room rest
        readItems fuel room (item :: read) rest
    | rest => failNext .expectedListSeparator rest

/-- The entries of an object after the first. A repeated key keeps its place and takes the later
value. -/
def readFields : Nat → Nat → List (String × Value) → List Char →
    Except Fault (List (String × Value) × List Char)
  | 0, _, _, text => failNext .unclosedObject text
  | fuel + 1, room, read, text =>
    match skipSpace text with
    | [] => failNext .unclosedObject []
    | '\x7d' :: rest => .ok (read, rest)
    | ',' :: rest =>
      match skipSpace rest with
      | '\x7d' :: rest => failNext .trailingComma ('\x7d' :: rest)
      | rest => do
        let (key, rest) ← readKey rest
        let (value, rest) ← readValue fuel room rest
        readFields fuel room (Entries.put key value read) rest
    | rest => failNext .expectedObjectSeparator rest

end

/-- How many containers a text may open around a value. -/
def maxNesting : Nat := 127

/-- The value that a text denotes, or the fault that keeps it from denoting one. -/
def readText (room : Nat) (text : List Char) : Except Fault Value := do
  let (value, rest) ← readValue (2 * text.length + 2) room text
  match skipSpace rest with
  | [] => .ok value
  | rest => failNext .trailingText rest

/-- A fault with its place in the text. -/
structure Located where
  cause : Cause
  place : Text.Place
deriving DecidableEq, Repr

def Located.message (l : Located) : String :=
  l.cause.message ++ " at line " ++ toString l.place.line ++ " column " ++ toString l.place.column

/-- The byte offset of a fault: the byte before the reported column, within the text. -/
def Located.offset (l : Located) (text : List Char) : Nat :=
  let length := Text.byteLength text
  match Text.lineStart? text l.place.line with
  | some start => min (start + (l.place.column - 1)) length
  | none => length

def read (text : String) : Except Located Value :=
  let chars := text.toList
  match readText maxNesting chars with
  | .ok value => .ok value
  | .error fault => .error ⟨fault.cause, Text.placeAt chars (Text.byteLength chars - fault.left)⟩

end Remap.Json
