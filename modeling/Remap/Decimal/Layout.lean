import Remap.Decimal.Shortest

/-!
# Writing doubles as text

A double is written with the digits of its shortest decimal. A layout settles the rest: which
exponents are written positionally, how a tie goes, and whether a whole number shows a fraction.
-/

namespace Remap.Decimal

/-- How the digits of a finite double are set out. -/
structure Layout where
  /-- Which of two equally short and equally near decimals is written. -/
  tie : Tie
  /-- The least exponent of the first digit that is written positionally. -/
  plainFrom : Int
  /-- The greatest exponent of the first digit that is written positionally. -/
  plainTo : Int
  /-- Whether a whole number in positional notation ends in `.0`. -/
  pointed : Bool

namespace Layout

/-- Payload text: whole numbers have no fraction, and exponents from -6 to 20 are positional. -/
def canonical : Layout := ⟨.up, -6, 20, false⟩

/-- Numbers of a rules document that are no exact integers: exponents from -5 to 15 are
positional, and whole numbers keep a point. -/
def document : Layout := ⟨.even, -5, 15, true⟩

def digitChar (d : Nat) : Char := Char.ofNat (48 + d)

def natText (n : Nat) : List Char :=
  if n = 0 then ['0'] else (Digits.ofNat n).map digitChar

/-- The text of `d.ddd · 10 ^ leading` for the given digits. -/
def place (l : Layout) (digits : List Char) (leading : Int) : List Char :=
  let length : Int := digits.length
  let point := leading + 1
  if leading < l.plainFrom ∨ l.plainTo < leading then
    let fraction := if digits.length ≤ 1 then [] else '.' :: digits.drop 1
    let sign := if leading < 0 then '-' else '+'
    digits.take 1 ++ fraction ++ 'e' :: sign :: natText leading.natAbs
  else if length ≤ point then
    digits ++ List.replicate (point - length).toNat '0' ++ if l.pointed then ['.', '0'] else []
  else if 0 < point then
    digits.take point.toNat ++ '.' :: digits.drop point.toNat
  else
    '0' :: '.' :: List.replicate (-point).toNat '0' ++ digits

/-- The text of a finite double other than zero. -/
def write (l : Layout) (b : Binary64) : List Char :=
  let d := b.shortest l.tie
  let text := l.place ((Digits.ofNat d.coefficient).map digitChar) d.leading
  if b.negative then '-' :: text else text

end Layout

/-- The canonical text of a number. Both zeros are `0`. -/
def canonicalText (x : Float) : String :=
  match Binary64.ofFloat? x with
  | some b => if b.significand = 0 then "0" else String.ofList (Layout.canonical.write b)
  | none => if x.isNaN then "NaN" else if x < 0 then "-Infinity" else "Infinity"

/-- The greatest magnitude at which every integer is a double. -/
def maxExactInteger : Nat := Nat.pow 2 53 - 1

/-- The magnitude of a double, if it is a whole number. -/
def Binary64.whole? (b : Binary64) : Option Nat :=
  if 0 ≤ b.exponent then some (b.significand * Nat.pow 2 b.exponent.toNat)
  else if b.significand % Nat.pow 2 (-b.exponent).toNat = 0 then
    some (b.significand / Nat.pow 2 (-b.exponent).toNat)
  else none

/-- The integer that a number stands for, if it is whole and at most `maxExactInteger` in
magnitude. -/
def exactInteger? (x : Float) : Option Int := do
  let b ← Binary64.ofFloat? x
  let n ← b.whole?
  if n ≤ maxExactInteger then some (if b.negative then -n else n) else none

/-- The text of a number in a rules document: exact integers without a point, and `null` where
there is no finite number. -/
def documentText (x : Float) : String :=
  match exactInteger? x with
  | some n =>
    String.ofList ((if n < 0 then ['-'] else []) ++ Layout.natText n.natAbs)
  | none =>
    match Binary64.ofFloat? x with
    | some b => String.ofList (Layout.document.write b)
    | none => "null"

/-- The text of a number in a JSON payload: canonical, and `null` where it is not finite. -/
def payloadText (x : Float) : String :=
  match Binary64.ofFloat? x with
  | some _ => canonicalText x
  | none => "null"

end Remap.Decimal
