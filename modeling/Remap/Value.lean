import Remap.Entries
import Remap.Decimal.Layout

/-!
# Payload values

The tree that every wire format is read into and written from. Numbers are doubles, and the keys
of an object are unique and keep their order.
-/

namespace Remap

/-- A payload value. -/
inductive Value where
  | null
  | bool (b : Bool)
  | number (n : Float)
  | string (s : String)
  | array (items : List Value)
  | object (fields : List (String × Value))
deriving Inhabited, Repr

/-- The shape of a value. -/
inductive Kind where
  | null
  | bool
  | number
  | string
  | array
  | object
deriving DecidableEq, Repr

namespace Kind

def name : Kind → String
  | null => "null"
  | bool => "bool"
  | number => "number"
  | string => "string"
  | array => "array"
  | object => "object"

end Kind

namespace Value

def kind : Value → Kind
  | null => .null
  | bool _ => .bool
  | number _ => .number
  | string _ => .string
  | array _ => .array
  | object _ => .object

/-- Whether a value is neither an array nor an object. -/
def isScalar : Value → Bool
  | array _ | object _ => false
  | _ => true

/-- Whether a value is `null` or `{}`, a slot that a write may fill. -/
def isVacant : Value → Bool
  | null | object [] => true
  | _ => false

/-- Whether a value is `null`. -/
def isNull : Value → Bool
  | null => true
  | _ => false

/-- The text of a string; other values have none. -/
def text? : Value → Option String
  | string s => some s
  | _ => none

/-- The items of an array; other values have none. -/
def items? : Value → Option (List Value)
  | array items => some items
  | _ => none

/-- The entries of an object; other values have none. -/
def fields? : Value → Option (Entries Value)
  | object fields => some fields
  | _ => none

/-- The truth of a boolean; other values have none. -/
def bool? : Value → Option Bool
  | bool b => some b
  | _ => none

/-- The entry of an object; other values have none. -/
def get? (key : String) : Value → Option Value
  | object fields => Entries.get? key fields
  | _ => none

/-- The text of a scalar as it stands in XML, query strings and templates; containers have none. -/
def scalarText? : Value → Option String
  | null => some ""
  | bool b => some (if b then "true" else "false")
  | number n => some (Decimal.canonicalText n)
  | string s => some s
  | array _ | object _ => none

mutual

/-- Whether two values are the same, the order of object keys aside. Numbers compare as doubles,
so both zeros are the same and NaN differs from itself. -/
def same : Value → Value → Bool
  | null, null => true
  | bool a, bool b => a == b
  | number a, number b => a == b
  | string a, string b => a == b
  | array xs, array ys => sameItems xs ys
  | object xs, object ys => xs.length == ys.length && sameFields xs ys
  | _, _ => false

/-- Whether two lists hold the same values in the same order. -/
def sameItems : List Value → List Value → Bool
  | [], [] => true
  | x :: xs, y :: ys => same x y && sameItems xs ys
  | _, _ => false

/-- Whether every entry of the first list is in the second. -/
def sameFields : List (String × Value) → List (String × Value) → Bool
  | [], _ => true
  | (k, x) :: xs, ys =>
    (match Entries.get? k ys with
      | some y => same x y
      | none => false) && sameFields xs ys

end

mutual

/-- How deeply containers are nested: nought for a scalar, one for `[]` and `{}`. -/
def nesting : Value → Nat
  | array items => itemsNesting items + 1
  | object fields => fieldsNesting fields + 1
  | _ => 0

def itemsNesting : List Value → Nat
  | [] => 0
  | x :: xs => max (nesting x) (itemsNesting xs)

/-- The greatest nesting of the entries of an object. -/
def fieldsNesting : List (String × Value) → Nat
  | [] => 0
  | (_, x) :: xs => max (nesting x) (fieldsNesting xs)

end

end Value

end Remap
