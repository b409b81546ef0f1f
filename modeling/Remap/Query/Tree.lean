import Remap.Query.Key
import Remap.Value

/-!
# The tree behind a query string

Pairs are put into a tree one by one. A slot takes the shape of the first pair that reaches it.
Arrays are sparse while pairs come in, and are closed up in the order of their indices at the end.
-/

namespace Remap.Query

/-- A tree under construction; the slots of an array are sorted by index. -/
inductive Tree where
  | vacant
  | leaf (text : String)
  | object (fields : List (String × Tree))
  | array (slots : List (Nat × Tree))
deriving Inhabited, Repr

/-- What stands in a slot. -/
inductive Shape where
  | nothing
  | value
  | object
  | array
deriving DecidableEq, Repr

def Shape.name : Shape → String
  | nothing => "nothing"
  | value => "a value"
  | object => "an object"
  | array => "an array"

/-- Why a pair does not fit the tree. -/
inductive Conflict where
  | key (name : String) (on : Shape)
  | index (n : Nat) (on : Shape)
  | append (on : Shape)
  | value (on : Shape)
deriving DecidableEq, Repr

def Conflict.message : Conflict → String
  | key name on => "key '" ++ name ++ "' used on " ++ on.name
  | index n on => "index [" ++ toString n ++ "] used on " ++ on.name
  | append on => "[] used on " ++ on.name
  | value on => "value assigned to " ++ on.name

namespace Tree

def shape : Tree → Shape
  | vacant => .nothing
  | leaf _ => .value
  | object _ => .object
  | array _ => .array

def isLeaf : Tree → Bool
  | leaf _ => true
  | _ => false

def slot? (n : Nat) : List (Nat × Tree) → Option Tree
  | [] => none
  | (m, t) :: rest => if m = n then some t else slot? n rest

/-- Sets the slot of an index among slots sorted by index. -/
def putSlot (n : Nat) (t : Tree) : List (Nat × Tree) → List (Nat × Tree)
  | [] => [(n, t)]
  | (m, u) :: rest =>
    if n < m then (n, t) :: (m, u) :: rest
    else if m = n then (n, t) :: rest
    else (m, u) :: putSlot n t rest

/-- The index behind the last slot. Behind the greatest index of all it starts over at nought. -/
def nextIndex (slots : List (Nat × Tree)) : Nat :=
  match slots.getLast? with
  | some (last, _) => (last + 1) % indexCount
  | none => 0

/-- Puts a text where a key ends. A text that is there already starts an array of texts. -/
def assign (text : String) : Tree → Except Conflict Tree
  | vacant => .ok (leaf text)
  | leaf first => .ok (array [(0, leaf first), (1, leaf text)])
  | array slots =>
    if slots.all fun (_, t) => t.isLeaf then
      .ok (array (putSlot (nextIndex slots) (leaf text) slots))
    else .error (.value .array)
  | object _ => .error (.value .object)

/-- Puts a text where the segments of a key lead. -/
def insert (text : String) : List Segment → Tree → Except Conflict Tree
  | [], t => t.assign text
  | .key name :: rest, t =>
    let put (fields : List (String × Tree)) := do
      let inner ← insert text rest ((Entries.get? name fields).getD vacant)
      .ok (object (Entries.put name inner fields))
    match t with
    | vacant => put []
    | object fields => put fields
    | t => .error (.key name t.shape)
  | .index n :: rest, t =>
    let put (slots : List (Nat × Tree)) := do
      let inner ← insert text rest ((slot? n slots).getD vacant)
      .ok (array (putSlot n inner slots))
    match t with
    | vacant => put []
    | array slots => put slots
    | t => .error (.index n t.shape)
  | .append :: rest, t =>
    let put (slots : List (Nat × Tree)) := do
      let n := nextIndex slots
      let inner ← insert text rest ((slot? n slots).getD vacant)
      .ok (array (putSlot n inner slots))
    match t with
    | vacant => put []
    | array slots => put slots
    | t => .error (.append t.shape)

mutual

def value : Tree → Value
  | vacant => .null
  | leaf text => .string text
  | object fields => .object (fieldValues fields)
  | array slots => .array (slotValues slots)

def fieldValues : List (String × Tree) → List (String × Value)
  | [] => []
  | (name, t) :: rest => (name, value t) :: fieldValues rest

/-- The values of the slots of a finished tree, without the gaps between them. -/
def slotValues : List (Nat × Tree) → List Value
  | [] => []
  | (_, t) :: rest => value t :: slotValues rest

end

end Tree

end Remap.Query
