import Remap.Text.Letter
import Remap.Text.Category

/-!
# Sets of characters

A set is a list of ranges of code points in ascending order, with a gap between any two.
-/

namespace Remap.Pattern

def maxCodePoint : Nat := 0x10FFFF

/-- A set of characters. -/
structure CharSet where
  ranges : List (Nat × Nat)
deriving DecidableEq, Repr, Inhabited

namespace CharSet

def empty : CharSet := ⟨[]⟩

def full : CharSet := ⟨[(0, maxCodePoint)]⟩

/-- Puts a range in front of ranges that start no earlier, joining those it meets. -/
def join (range : Nat × Nat) : List (Nat × Nat) → List (Nat × Nat)
  | [] => [range]
  | (low, high) :: rest =>
    if low ≤ range.2 + 1 then join (range.1, max range.2 high) rest
    else range :: (low, high) :: rest

/-- The set of the characters in some ranges, which may overlap and come in any order. -/
def ofRanges (ranges : List (Nat × Nat)) : CharSet :=
  ⟨(ranges.mergeSort fun a b => a.1 ≤ b.1).foldr join []⟩

/-- The set of the characters from `low` to `high`. -/
def range (low high : Nat) : CharSet := ⟨if low ≤ high then [(low, high)] else []⟩

def single (c : Char) : CharSet := range c.toNat c.toNat

def ofChars (chars : List Char) : CharSet := ofRanges (chars.map fun c => (c.toNat, c.toNat))

def union (a b : CharSet) : CharSet := ofRanges (a.ranges ++ b.ranges)

/-- The gaps before and between ranges, from `next` on. -/
def gaps (next : Nat) : List (Nat × Nat) → List (Nat × Nat)
  | [] => if next ≤ maxCodePoint then [(next, maxCodePoint)] else []
  | (low, high) :: rest =>
    (if next < low then [(next, low - 1)] else []) ++ gaps (high + 1) rest

def complement (a : CharSet) : CharSet := ⟨gaps 0 a.ranges⟩

def inter (a b : CharSet) : CharSet := (a.complement.union b.complement).complement

/-- The characters in the first set and not in the second. -/
def diff (a b : CharSet) : CharSet := a.inter b.complement

/-- The characters in one set and not in the other. -/
def symmDiff (a b : CharSet) : CharSet := (a.union b).diff (a.inter b)

def negateIf (negated : Bool) (a : CharSet) : CharSet := if negated then a.complement else a

/-- Whether a code point is in a set. -/
def contains (a : CharSet) (n : Nat) : Bool :=
  a.ranges.any fun (low, high) => low ≤ n && n ≤ high

def isAscii (a : CharSet) : Bool := a.ranges.all fun (_, high) => high < 128

def isEmpty (a : CharSet) : Bool := a.ranges.isEmpty

/-- The set of one character and those that differ from it in case only. -/
def folded (c : Char) : CharSet := ofChars (Text.caseVariants c)

/-- A set with all characters that differ in case only from one of its own. -/
def fold (a : CharSet) : CharSet :=
  let met := Text.orbits.filter fun orbit => orbit.any a.contains
  ofRanges (a.ranges ++ met.flatten.map fun n => (n, n))

/-- A set with the ASCII letters that differ in case only from one of its own. -/
def foldAscii (a : CharSet) : CharSet :=
  let letters := (List.range 26).filter fun i => a.contains (65 + i) || a.contains (97 + i)
  ofRanges (a.ranges ++ letters.flatMap fun i => [(65 + i, 65 + i), (97 + i, 97 + i)])

def ofTable (r : Text.Ranges) : CharSet := ofRanges r.table.toList

end CharSet

end Remap.Pattern
