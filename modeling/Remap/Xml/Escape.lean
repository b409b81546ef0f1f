import Remap.Text.Basic
import Remap.Decimal.Literal

/-!
# Character references in XML

Five characters are written as entities. A reference is read from an ampersand to the next
semicolon, before any other ampersand.
-/

namespace Remap.Xml

/-- A character as it is written in text and attribute values. -/
def escapeChar (c : Char) : List Char :=
  if c = '<' then "&lt;".toList
  else if c = '>' then "&gt;".toList
  else if c = '\'' then "&apos;".toList
  else if c = '&' then "&amp;".toList
  else if c = '"' then "&quot;".toList
  else [c]

def escape (text : List Char) : List Char := text.flatMap escapeChar

def entity? (name : String) : Option Char :=
  match name with
  | "lt" => some '<'
  | "gt" => some '>'
  | "amp" => some '&'
  | "apos" => some '\''
  | "quot" => some '"'
  | _ => none

/-- Why a character reference denotes no character. -/
inductive ReferenceFault where
  | signed
  | empty
  | invalidDigit
  | tooLarge
  | noCharacter (code : Nat)
  | nul
deriving DecidableEq, Repr

def ReferenceFault.message : ReferenceFault → String
  | signed => "unexpected number sign"
  | empty => "cannot parse integer from empty string"
  | invalidDigit => "invalid digit found in string"
  | tooLarge => "number too large to fit in target type"
  | noCharacter code => "\x60" ++ toString code ++ "\x60 is not a valid codepoint"
  | nul => "0x0 character is not permitted in XML"

/-- The value of a digit in a base up to sixteen. -/
def digitIn? (base : Nat) (c : Char) : Option Nat :=
  let value :=
    if '0' ≤ c ∧ c ≤ '9' then c.toNat - 48
    else if 'a' ≤ c ∧ c ≤ 'f' then c.toNat - 87
    else if 'A' ≤ c ∧ c ≤ 'F' then c.toNat - 55
    else 16
  if value < base then some value else none

/-- The number that digits denote in a base, within 32 bits. -/
def readCode (base : Nat) : Nat → List Char → Except ReferenceFault Nat
  | code, [] => .ok code
  | code, c :: rest =>
    match digitIn? base c with
    | none => .error .invalidDigit
    | some digit =>
      let next := code * base + digit
      if next < UInt32.size then readCode base next rest else .error .tooLarge

def readCodeText (base : Nat) : List Char → Except ReferenceFault Nat
  | [] => .error .empty
  | c :: rest => if c = '+' ∨ c = '-' then .error .signed else readCode base 0 (c :: rest)

def charOfCode (code : Nat) : Except ReferenceFault Char :=
  if code = 0 then .error .nul
  else if h : code.isValidChar then .ok (Char.ofNatAux code h)
  else .error (.noCharacter code)

/-- The character of a reference by number, after its `#`. -/
def readReference (text : List Char) : Except ReferenceFault Char := do
  let code ← match text with
    | 'x' :: hex => readCodeText 16 hex
    | decimal => readCodeText 10 decimal
  charOfCode code

/-- Why a text cannot be read. Positions are bytes within the text. -/
inductive EscapeFault where
  | unknownEntity (start stop : Nat) (name : String)
  | unterminated (start stop : Nat)
  | badReference (fault : ReferenceFault)
deriving DecidableEq, Repr

def EscapeFault.message : EscapeFault → String
  | unknownEntity start stop name =>
    "at " ++ toString start ++ ".." ++ toString stop ++ ": unrecognized entity \x60" ++ name
      ++ "\x60"
  | unterminated start stop =>
    "Error while escaping character at range " ++ toString start ++ ".." ++ toString stop
      ++ ": Cannot find ';' after '&'"
  | badReference fault => "invalid character reference: " ++ fault.message

/-- A text with its references replaced. `seen` bytes come before it and `size` bytes are in all;
`fuel` bounds the number of pieces. -/
def unescapeFrom : Nat → Nat → Nat → List Char → Except EscapeFault (List Char)
  | 0, _, _, text => .ok text
  | fuel + 1, size, seen, text =>
    let (plain, rest) := text.span (· != '&')
    match rest with
    | [] => .ok plain
    | _ :: rest =>
      let start := seen + Text.byteLength plain
      let (name, rest) := rest.span fun c => c != '&' && c != ';'
      match rest with
      | ';' :: rest =>
        let stop := start + 1 + Text.byteLength name
        let found := match name with
          | '#' :: number => (readReference number).mapError EscapeFault.badReference
          | _ =>
            match entity? (String.ofList name) with
            | some c => .ok c
            | none => .error (.unknownEntity (start + 1) stop (String.ofList name))
        match found with
        | .error fault => .error fault
        | .ok c => (unescapeFrom fuel size (stop + 1) rest).map fun tail => plain ++ c :: tail
      | _ => .error (.unterminated start size)

/-- A text with its entities and character references replaced by the characters they stand
for. -/
def unescape (text : List Char) : Except EscapeFault (List Char) :=
  unescapeFrom (text.length + 1) (Text.byteLength text) 0 text

end Remap.Xml
