/-!
# Tables of characters

A property of characters is given as a sorted list of ranges of code points in hexadecimal. A
lookup finds the last range that starts at or before a code point.
-/

namespace Remap.Text

def hexDigitValue (c : Char) : Nat :=
  if c.toNat < 58 then c.toNat - 48 else c.toNat - 55

/-- The number written by hexadecimal digits in capitals. -/
def hexNumber (digits : List Char) : Nat :=
  digits.foldl (fun n c => 16 * n + hexDigitValue c) 0

/-- The items of a table, which stand between spaces in its rows. -/
def itemsOf (rows : List String) : List String := rows.flatMap (·.splitOn " ")

/-- The thing that belongs to the last start at or before `n`, in a table sorted by start. -/
def lastStart? {α : Type} (table : Array (Nat × α)) (n : Nat) : Option α :=
  go table.size 0 table.size none
where
  go : Nat → Nat → Nat → Option α → Option α
    | 0, _, _, found => found
    | fuel + 1, low, high, found =>
      if low < high then
        let middle := (low + high) / 2
        match table[middle]? with
        | some (start, thing) =>
          if start ≤ n then go fuel (middle + 1) high (some thing)
          else go fuel low middle found
        | none => found
      else found

/-- A sorted list of ranges: the first code point of each, with its last. -/
structure Ranges where
  table : Array (Nat × Nat)

namespace Ranges

/-- The range written by one or two code points. -/
def rangeOfText (item : List Char) : Nat × Nat :=
  let (first, last) := item.span (· != '-')
  let start := hexNumber first
  (start, if last.isEmpty then start else hexNumber (last.drop 1))

def ofText (rows : List String) : Ranges :=
  ⟨((itemsOf rows).map fun item => rangeOfText item.toList).toArray⟩

/-- Whether a code point lies in one of the ranges. -/
def contains (r : Ranges) (n : Nat) : Bool :=
  match lastStart? r.table n with
  | some last => n ≤ last
  | none => false

end Ranges

end Remap.Text
