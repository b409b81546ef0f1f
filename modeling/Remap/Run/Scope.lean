import Remap.Format
import Remap.Path.Basic
import Remap.Value

/-!
# Scopes

A scope is the place from which rules read: the input document, or an item of a split inside it.
The wildcards of a path stand, from left to right, for the indices of the innermost splits from the
outside in.
-/

namespace Remap.Run

/-- A place from which rules read. -/
structure Scope where
  root : Value
  /-- The items of the splits around, each with its index, innermost first. -/
  items : List (Value × Nat)
  /-- Whether a value that stands alone counts as an array of one item. -/
  loneItems : Bool

namespace Scope

/-- The outermost scope of a document of the given format. Formats without arrays show an array of
one item as that item. -/
def ofInput (format : Format) (root : Value) : Scope := ⟨root, [], format = .xml⟩

def enter (s : Scope) (item : Value) (index : Nat) : Scope :=
  { s with items := (item, index) :: s.items }

/-- The value that relative paths start from. -/
def current (s : Scope) : Value :=
  match s.items with
  | [] => s.root
  | (item, _) :: _ => item

def depth (s : Scope) : Nat := s.items.length

def item? (s : Scope) (index : Nat) : Value → Option Value
  | .array items => items[index]?
  | .null => none
  | v => if s.loneItems && index == 0 then some v else none

/-- The value at the end of segments. `bound` holds the indices that wildcards stand for. -/
def follow? (s : Scope) : List Nat → List Segment → Value → Option Value
  | _, [], v => some v
  | bound, .key name :: rest, v => (v.get? name).bind (s.follow? bound rest)
  | bound, .index i :: rest, v => (s.item? i v).bind (s.follow? bound rest)
  | [], .wildcard :: _, _ => none
  | i :: bound, .wildcard :: rest, v => (s.item? i v).bind (s.follow? bound rest)

/-- The value that a path leads to. A path with more wildcards than there are splits around leads
nowhere. -/
def resolve? (s : Scope) (p : SourcePath) : Option Value :=
  if s.depth < p.wildcards then none
  else
    let bound := ((s.items.take p.wildcards).map (·.2)).reverse
    s.follow? bound p.segments (if p.absolute then s.root else s.current)

end Scope

end Remap.Run
