import Remap.Decimal.Binary64

/-!
# The shortest decimal that reads back as a given double

Between a double and its neighbours lies an interval of reals that round to it. Of the decimals
in that interval the one with the fewest digits is chosen, and of several the nearest. An exact
tie is settled by the caller.

A double is also rounded as it is written: its shortest decimal is cut to a number of places, and a half
goes away from zero.
-/

namespace Remap.Decimal

/-- The decimal `coefficient · 10 ^ exponent`. -/
structure Digits where
  coefficient : Nat
  exponent : Int
deriving Repr, DecidableEq

/-- Which of two equally near decimals is taken. -/
inductive Tie where
  | up
  | even
deriving Repr, DecidableEq

namespace Digits

/-- The decimal digits of a number, most significant first; none for zero. -/
def ofNat (n : Nat) : List Nat :=
  go n []
where
  go (n : Nat) (acc : List Nat) : List Nat :=
    if n = 0 then acc else go (n / 10) (n % 10 :: acc)

/-- The number of decimal digits of a number. -/
def count (n : Nat) : Nat := (ofNat n).length

/-- The same decimal without zeros at the end of its coefficient. -/
def normalize (coefficient : Nat) (exponent : Int) : Digits :=
  if coefficient = 0 then ⟨0, exponent⟩
  else if coefficient % 10 = 0 then normalize (coefficient / 10) (exponent + 1)
  else ⟨coefficient, exponent⟩
termination_by coefficient
decreasing_by omega

/-- The exponent of the first digit: `d.ddd · 10 ^ leading`. -/
def leading (d : Digits) : Int := d.exponent + count d.coefficient - 1

end Digits

namespace Binary64

/-- The interval of reals that round to a double, in quarters of a unit in the last place. -/
structure Interval where
  low : Nat
  value : Nat
  high : Nat
  closed : Bool
deriving Repr

/-- The interval around a double with a positive significand. Below a power of two the doubles
are twice as dense, so there the lower half is half as wide. -/
def interval (b : Binary64) : Interval where
  low := 4 * b.significand -
    if b.significand = Nat.pow 2 52 ∧ b.exponent > minExponent then 1 else 2
  value := 4 * b.significand
  high := 4 * b.significand + 2
  closed := b.significand % 2 = 0

/-- Whether `x` lies in the interval. -/
def Interval.contains (i : Interval) (x : Nat) : Bool :=
  if i.closed then i.low ≤ x ∧ x ≤ i.high else i.low < x ∧ x < i.high

/-- The interval with every bound multiplied by `factor`. -/
def Interval.scale (i : Interval) (factor : Nat) : Interval :=
  { i with low := i.low * factor, value := i.value * factor, high := i.high * factor }

/-- The multiple of `10 ^ grid` nearest to the double that still rounds to it, as a coefficient. -/
def onGrid? (tie : Tie) (b : Binary64) (grid : Int) : Option Nat :=
  let quarter := b.exponent - 2
  let i := b.interval.scale (Nat.pow 2 quarter.toNat * Nat.pow 10 (-grid).toNat)
  let step := Nat.pow 10 grid.toNat * Nat.pow 2 (-quarter).toNat
  let below := i.value / step
  let above := below + 1
  match i.contains (below * step), i.contains (above * step) with
  | false, false => none
  | true, false => some below
  | false, true => some above
  | true, true =>
    let down := i.value - below * step
    let up := above * step - i.value
    if down < up then some below
    else if up < down then some above
    else match tie with
      | .up => some above
      | .even => some (if below % 2 = 0 then below else above)

/-- An exponent `e` with `10 ^ e ≤ b < 10 ^ (e + 1)`, for a positive significand. -/
def magnitude (b : Binary64) : Int :=
  let num := b.significand * Nat.pow 2 b.exponent.toNat
  let den := Nat.pow 2 (-b.exponent).toNat
  let guess : Int := (Digits.count num : Int) - Digits.count den
  if num * Nat.pow 10 (-guess).toNat < den * Nat.pow 10 guess.toNat then guess - 1 else guess

/-- The shortest decimal that reads back as the magnitude of `b`. Seventeen digits are enough for
every double. -/
def shortest (tie : Tie) (b : Binary64) : Digits :=
  if b.significand = 0 then ⟨0, 0⟩
  else
    let top := b.magnitude
    search 17 top
where
  search : Nat → Int → Digits
    | 0, grid => Digits.normalize ((b.onGrid? tie grid).getD 0) grid
    | fuel + 1, grid =>
      match b.onGrid? tie grid with
      | some coefficient => Digits.normalize coefficient grid
      | none => search fuel (grid - 1)

end Binary64

/-! ## Rounding -/

/-- How many places a decimal may have to be rounded. A double with more is left as it is. -/
def maxPlaces : Nat := 28

/-- The quotient nearest to `num / den`; a half goes up. -/
def roundHalfUp (num den : Nat) : Nat := (2 * num + den) / (2 * den)

def round (x : Float) (places : Nat) : Float :=
  match Binary64.ofFloat? x with
  | none => x
  | some b =>
    let d := b.shortest .up
    let scale := (-d.exponent).toNat
    if scale ≤ places ∨ maxPlaces < scale then x
    else
      let q := roundHalfUp d.coefficient (Nat.pow 10 (scale - places))
      match Binary64.nearest? b.negative q (Nat.pow 10 places) with
      | some rounded => rounded.toFloat
      | none => x

end Remap.Decimal
