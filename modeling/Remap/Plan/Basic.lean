import Remap.Path.Basic
import Remap.Rule.Basic
import Remap.Transform.Operation

/-!
# Plans

A plan is what rules come down to: no references are left, every path and pattern is read, and every
call is an operation.
-/

namespace Remap.Plan

/-- A condition that is ready to run. -/
inductive Predicate where
  | equals (source : SourcePath) (value : Value)
  | exists (source : SourcePath)
  | matches (source : SourcePath) (text : String) (pattern : Pattern.Matcher)
  | and (predicates : List Predicate)
  | or (predicates : List Predicate)
  | not (predicate : Predicate)
  | literal (value : Bool)
  | greaterThan (source : SourcePath) (value : Value)
  | lessThan (source : SourcePath) (value : Value)

instance : Inhabited Predicate := ⟨.literal true⟩

/-- Where a field takes its value from. -/
inductive Source where
  | path (path : SourcePath)
  | constant (value : Value)

/-- A rule that writes one field. -/
structure Field where
  source : Source
  operations : List Operation
  target : TargetPath
  optional : Bool

/-- A tree of rules that is ready to run. -/
inductive Node where
  | field (f : Field)
  | condition (test : Predicate) (yes : Node) (no : Option Node)
  | merge (inputs : List Node) (policy : MergePolicy) (target : TargetPath)
  | split (source : SourcePath) (item : Node) (target : TargetPath)
  | sequence (steps : List Node)

instance : Inhabited Node := ⟨.sequence []⟩

namespace Predicate

/-- The name of the operator of a predicate. -/
def op : Predicate → String
  | equals .. => "equals"
  | «exists» .. => "exists"
  | «matches» .. => "matches"
  | and .. => "and"
  | or .. => "or"
  | not .. => "not"
  | literal .. => "literal"
  | greaterThan .. => "greaterThan"
  | lessThan .. => "lessThan"

end Predicate

namespace Node

mutual

/-- How many nodes a tree has. -/
def size : Node → Nat
  | field _ => 1
  | condition _ yes none => size yes + 1
  | condition _ yes (some no) => size yes + size no + 1
  | merge inputs _ _ => sizes inputs + 1
  | split _ item _ => size item + 1
  | sequence steps => sizes steps + 1

def sizes : List Node → Nat
  | [] => 0
  | n :: ns => size n + sizes ns

end

end Node

end Remap.Plan

namespace Remap

/-- A document that is ready to run. -/
structure Plan where
  schemaVersion : String
  inputFormat : Format
  outputFormat : Format
  root : Plan.Node

def Plan.nodeCount (p : Plan) : Nat := p.root.size

end Remap
