import Remap.Rule.Basic
import Remap.Rule.Place

/-!
# Walking rule trees

Nodes are visited from the top down and in order, so that a visit's number orders what is found
at different nodes.
-/

namespace Remap.Rule

/-- A node with the number of its visit, its place and the number of splits around it. -/
structure Visit where
  index : Nat
  place : Place
  node : Node
  splitDepth : Nat

namespace Node

mutual

/-- How many nodes a tree has. -/
def size : Node → Nat
  | field _ | fragment _ => 1
  | condition _ yes none => size yes + 1
  | condition _ yes (some no) => size yes + size no + 1
  | merge inputs _ _ => sizes inputs + 1
  | split _ item _ => size item + 1
  | sequence steps => sizes steps + 1

def sizes : List Node → Nat
  | [] => 0
  | n :: ns => size n + sizes ns

end

mutual

/-- The nodes of a tree from the top down, without their numbers: places, splits around them and
the nodes themselves. -/
def placed (place : Place) (splits : Nat) : Node → List (Place × Nat × Node)
  | field f => [(place, splits, field f)]
  | fragment name => [(place, splits, fragment name)]
  | condition test yes none =>
    (place, splits, condition test yes none) :: placed (place.down .yes) splits yes
  | condition test yes (some no) =>
    (place, splits, condition test yes (some no)) ::
      (placed (place.down .yes) splits yes ++ placed (place.down .no) splits no)
  | merge inputs policy target =>
    (place, splits, merge inputs policy target) ::
      placedAll (fun i => place.down (.input i)) splits 0 inputs
  | split source item target =>
    (place, splits, split source item target) :: placed (place.down .item) (splits + 1) item
  | sequence steps =>
    (place, splits, sequence steps) :: placedAll (fun i => place.down (.step i)) splits 0 steps

/-- The nodes of the trees of a list, of which the first stands at `place i`. -/
def placedAll (place : Nat → Place) (splits i : Nat) : List Node → List (Place × Nat × Node)
  | [] => []
  | n :: ns => placed (place i) splits n ++ placedAll place splits (i + 1) ns

end

def visits (top : Place) (node : Node) : List Visit :=
  (placed top 0 node).zipIdx.map fun ((place, splits, node), i) => ⟨i, place, node, splits⟩

/-- The names of fragments that a tree refers to, from the top down. -/
def references (node : Node) : List String :=
  (placed .root 0 node).filterMap fun
    | (_, _, fragment name) => some name
    | _ => none

/-- The node one step down. The index of an item is no part of the tree. -/
def child? : Node → Step → Option Node
  | sequence steps, .step i => steps[i]?
  | merge inputs _ _, .input i => inputs[i]?
  | condition _ yes _, .yes => some yes
  | condition _ _ no, .no => no
  | split _ item _, .item | split _ item _, .itemAt _ => some item
  | _, _ => none

def find? (node : Node) : List Step → Option Node
  | [] => some node
  | s :: rest => (node.child? s).bind fun child => child.find? rest

/-- The node with the node one step down replaced by its image. -/
def mapChild (f : Node → Node) : Node → Step → Node
  | sequence steps, .step i => sequence (steps.modify i f)
  | merge inputs policy target, .input i => merge (inputs.modify i f) policy target
  | condition test yes no, .yes => condition test (f yes) no
  | condition test yes no, .no => condition test yes (no.map f)
  | split source item target, .item | split source item target, .itemAt _ =>
    split source (f item) target
  | node, _ => node

/-- The node with the node at the end of some steps replaced by its image. -/
def mapAt (f : Node → Node) (steps : List Step) (node : Node) : Node :=
  match steps with
  | [] => f node
  | s :: rest => node.mapChild (mapAt f rest) s

end Node

end Remap.Rule
