import Remap.Decimal.Binary64

/-!
# The number grammar of JSON

A number is an optional minus sign, an integer part without leading zeros, an optional fraction
and an optional exponent. A literal stands for an exact decimal, which is then rounded to the
nearest double.
-/

namespace Remap.Decimal

/-- A number literal: `± coefficient · 10 ^ exponent`, written with `length` digits. -/
structure Literal where
  negative : Bool
  coefficient : Nat
  length : Nat
  exponent : Int
deriving Repr, DecidableEq

/-- Whether a character is one of the ten ASCII digits. -/
def isDigit (c : Char) : Bool := '0' ≤ c ∧ c ≤ '9'

def digitValue (c : Char) : Nat := c.toNat - 48

def ofDigits (digits : List Char) : Nat :=
  digits.foldl (fun n c => 10 * n + digitValue c) 0

namespace Literal

def readSign : List Char → Bool × List Char
  | '-' :: rest => (true, rest)
  | text => (false, text)

/-- The integer part: a zero, or digits that do not start with one. -/
def readInteger? : List Char → Option (List Char × List Char)
  | '0' :: rest => some (['0'], rest)
  | text =>
    match text.span isDigit with
    | ([], _) => none
    | (digits, rest) => some (digits, rest)

/-- The digits after a point, if there is one; a point needs at least one digit. -/
def readFraction? : List Char → Option (List Char × List Char)
  | '.' :: rest =>
    match rest.span isDigit with
    | ([], _) => none
    | (digits, rest) => some (digits, rest)
  | text => some ([], text)

/-- The sign of an exponent and the text after it. -/
def readExponentSign : List Char → Bool × List Char
  | '+' :: rest => (false, rest)
  | '-' :: rest => (true, rest)
  | text => (false, text)

/-- The exponent, if there is one; its mark needs at least one digit. -/
def readExponent? : List Char → Option (Int × List Char)
  | [] => some (0, [])
  | c :: rest =>
    if c = 'e' ∨ c = 'E' then
      let (negative, rest) := readExponentSign rest
      match rest.span isDigit with
      | ([], _) => none
      | (digits, rest) =>
        let size : Int := ofDigits digits
        some (if negative then -size else size, rest)
    else some (0, c :: rest)

/-- The literal that makes up the whole of a text. -/
def read? (text : List Char) : Option Literal := do
  let (negative, text) := readSign text
  let (integer, text) ← readInteger? text
  let (fraction, text) ← readFraction? text
  let (exponent, text) ← readExponent? text
  match text with
  | [] =>
    let digits := integer ++ fraction
    some ⟨negative, ofDigits digits, digits.length, exponent - fraction.length⟩
  | _ :: _ => none

/-- The double nearest to a literal; none if that is infinite. Far beyond the range of doubles
the exponent alone decides. -/
def toBinary64? (l : Literal) : Option Binary64 :=
  if l.coefficient = 0 ∨ l.exponent + l.length < -400 then
    some ⟨l.negative, 0, Binary64.minExponent⟩
  else if l.exponent > 400 then none
  else
    Binary64.nearest? l.negative (l.coefficient * Nat.pow 10 l.exponent.toNat)
      (Nat.pow 10 (-l.exponent).toNat)

end Literal

/-- The number that a text denotes under the JSON number grammar, rounded to the nearest double.
Text outside the grammar and numbers beyond the greatest double denote none. -/
def readNumber? (text : String) : Option Float := do
  let literal ← Literal.read? text.toList
  let b ← literal.toBinary64?
  some b.toFloat

end Remap.Decimal
