import Remap.Decimal.Literal

/-!
# Schema versions

A rules document declares the version of the schema it is written in.
-/

namespace Remap

/-- A `major.minor` version. -/
structure Version where
  major : Nat
  minor : Nat
deriving DecidableEq, Repr

namespace Version

def newest : Version := ⟨1, 2⟩

/-- The versions that a document may declare. -/
def supported : List Version := [⟨1, 0⟩, ⟨1, 1⟩, ⟨1, 2⟩]

/-- Whether a document may declare the version. -/
def isSupported (v : Version) : Bool := supported.contains v

/-- Whether a version comes before another or is the same. -/
def le (a b : Version) : Bool := a.major < b.major || (a.major == b.major && a.minor ≤ b.minor)

def text (v : Version) : String := toString v.major ++ "." ++ toString v.minor

/-- A text that is no version. -/
structure Malformed where
  text : String
deriving DecidableEq, Repr

/-- The wording of a text that is no version. -/
def Malformed.message (m : Malformed) : String :=
  "'" ++ m.text ++ "' is not a major.minor version"

/-- The number that digits write, within 32 bits. -/
def part? (digits : List Char) : Option Nat :=
  if digits.isEmpty || !digits.all Decimal.isDigit then none
  else
    let n := Decimal.ofDigits digits
    if n < UInt32.size then some n else none

def parse (text : String) : Except Malformed Version :=
  let (major, rest) := text.toList.span (· != '.')
  match part? major, rest with
  | some major, _ :: minor =>
    match part? minor with
    | some minor => .ok ⟨major, minor⟩
    | none => .error ⟨text⟩
  | _, _ => .error ⟨text⟩

end Version

end Remap
