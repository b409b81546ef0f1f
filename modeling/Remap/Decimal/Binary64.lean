/-!
# Double-precision numbers as exact fractions

A finite double is `significand · 2 ^ exponent` with a sign. Its bit pattern and this form are
taken apart and put together here, and a positive fraction is rounded to the nearest double, a
tie going to the even significand.
-/

namespace Remap.Decimal

/-- A finite double: `± significand · 2 ^ exponent`, where the significand has at most 53 bits. -/
structure Binary64 where
  negative : Bool
  significand : Nat
  exponent : Int
deriving Repr, DecidableEq

namespace Binary64

/-- The least exponent of a double, that of the subnormal numbers. -/
def minExponent : Int := -1074

/-- The greatest exponent of a double. -/
def maxExponent : Int := 971

/-- The parts of a finite double; infinities and NaN have none. -/
def ofFloat? (x : Float) : Option Binary64 :=
  let bits := x.toBits.toNat
  let field : Nat := bits / Nat.pow 2 52 % Nat.pow 2 11
  let fraction : Nat := bits % Nat.pow 2 52
  let negative := bits / Nat.pow 2 63 = 1
  if field = 2047 then none
  else if field = 0 then some ⟨negative, fraction, minExponent⟩
  else some ⟨negative, Nat.pow 2 52 + fraction, (field : Int) - 1075⟩

/-- The double with the given parts. -/
def toFloat (b : Binary64) : Float :=
  let magnitude :=
    if b.significand < Nat.pow 2 52 then b.significand
    else (b.exponent + 1075).toNat * Nat.pow 2 52 + (b.significand - Nat.pow 2 52)
  Float.ofBits (UInt64.ofNat (magnitude + if b.negative then Nat.pow 2 63 else 0))

/-- `num / den` rounded to an integer, a tie going to the even one. -/
def divideToEven (num den : Nat) : Nat :=
  let quotient := num / den
  let twice := 2 * (num % den)
  if twice > den ∨ (twice = den ∧ quotient % 2 = 1) then quotient + 1 else quotient

/-- `num · 2 ^ -exponent / den` rounded to an integer, a tie going to the even one. -/
def scaledQuotient (num den : Nat) (exponent : Int) : Nat :=
  divideToEven (num * Nat.pow 2 (-exponent).toNat) (den * Nat.pow 2 exponent.toNat)

/-- The exponent at which `num / den` has a significand of 53 bits, or the least exponent. -/
def exponentOf (num den : Nat) : Int :=
  let guess : Int := (num.log2 : Int) - den.log2
  let low := num * Nat.pow 2 (-guess).toNat < den * Nat.pow 2 guess.toNat
  max minExponent ((if low then guess - 1 else guess) - 52)

/-- The double nearest to the positive fraction `num / den`; none if that would be infinite. -/
def nearest? (negative : Bool) (num den : Nat) : Option Binary64 :=
  if num = 0 then some ⟨negative, 0, minExponent⟩
  else
    let exponent := exponentOf num den
    let significand := scaledQuotient num den exponent
    let rounded : Binary64 :=
      if significand = Nat.pow 2 53 then ⟨negative, Nat.pow 2 52, exponent + 1⟩
      else ⟨negative, significand, exponent⟩
    if rounded.exponent > maxExponent then none else some rounded

end Binary64

end Remap.Decimal
