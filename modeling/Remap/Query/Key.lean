import Remap.Decimal.Literal

/-!
# Keys in bracket notation

A key such as `a[b][0][]` is a name followed by segments in brackets: a name, an index made of
digits, or nothing, which appends.
-/

namespace Remap.Query

/-- A segment of a key. -/
inductive Segment where
  | key (name : String)
  | index (n : Nat)
  | append
deriving DecidableEq, Repr

/-- Why a key has no segments. -/
inductive KeyFault where
  | noName (key : String)
  | unbalanced (key : String)
  | textAfterBracket (key : String)
  | unclosed (key : String)
  | nested (key : String)
  | indexTooLarge (digits : String)
deriving DecidableEq, Repr

def KeyFault.message : KeyFault → String
  | noName key => "key '" ++ key ++ "' has no name before its brackets"
  | unbalanced key => "unbalanced ']' in key '" ++ key ++ "'"
  | textAfterBracket key => "unexpected text after ']' in key '" ++ key ++ "'"
  | unclosed key => "unclosed '[' in key '" ++ key ++ "'"
  | nested key => "nested '[' in key '" ++ key ++ "'"
  | indexTooLarge digits => "index [" ++ digits ++ "] is out of range"

/-- The number of indices: an index fits 64 bits. -/
def indexCount : Nat := UInt64.size

/-- The segment that stands between brackets. -/
def segmentOf (key : String) (inner : List Char) : Except KeyFault Segment :=
  if inner.contains '[' then .error (.nested key)
  else if inner.isEmpty then .ok .append
  else if inner.all Decimal.isDigit then
    let n := Decimal.ofDigits inner
    if n < indexCount then .ok (.index n) else .error (.indexTooLarge (String.ofList inner))
  else .ok (.key (String.ofList inner))

/-- The segments of a rest of a key; `fuel` bounds their number. -/
def readSegments (key : String) : Nat → List Char → Except KeyFault (List Segment)
  | 0, _ => .ok []
  | _, [] => .ok []
  | fuel + 1, c :: rest =>
    if c = '[' then
      let (inner, rest) := rest.span (· != ']')
      match rest with
      | [] => .error (.unclosed key)
      | _ :: rest => do
        let segment ← segmentOf key inner
        let segments ← readSegments key fuel rest
        .ok (segment :: segments)
    else .error (.textAfterBracket key)

def readKey (key : String) : Except KeyFault (List Segment) :=
  let (base, rest) := key.toList.span (· != '[')
  if base.isEmpty then .error (.noName key)
  else if base.contains ']' then .error (.unbalanced key)
  else do
    let segments ← readSegments key (rest.length + 1) rest
    .ok (.key (String.ofList base) :: segments)

end Remap.Query
