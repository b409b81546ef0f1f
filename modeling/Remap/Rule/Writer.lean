import Remap.Json.Writer
import Remap.Rule.Basic

/-!
# Writing rules

Rules are written with their fields in a fixed order, and what has a default is left out where it
takes that default. Reading what is written gives the same rules.
-/

namespace Remap

mutual

def Condition.tree : Condition → Value
  | .equals source value =>
    .object [("op", .string "equals"), ("source", .string source), ("value", value)]
  | .greaterThan source value =>
    .object [("op", .string "greaterThan"), ("source", .string source), ("value", value)]
  | .lessThan source value =>
    .object [("op", .string "lessThan"), ("source", .string source), ("value", value)]
  | .exists source => .object [("op", .string "exists"), ("source", .string source)]
  | .matches source pattern =>
    .object [("op", .string "matches"), ("source", .string source), ("pattern", .string pattern)]
  | .and conditions =>
    .object [("op", .string "and"), ("conditions", .array (Condition.trees conditions))]
  | .or conditions =>
    .object [("op", .string "or"), ("conditions", .array (Condition.trees conditions))]
  | .not condition => .object [("op", .string "not"), ("condition", Condition.tree condition)]
  | .literal value => .object [("op", .string "literal"), ("value", .bool value)]

def Condition.trees : List Condition → List Value
  | [] => []
  | c :: cs => Condition.tree c :: Condition.trees cs

end

namespace Rule

/-- An entry that is left out unless a condition holds. -/
def entryIf (shown : Bool) (name : String) (v : Value) : List (String × Value) :=
  if shown then [(name, v)] else []

/-- The call of a transform as a document tree; without arguments it is the name alone. -/
def Call.tree (c : Call) : Value :=
  if c.args.isEmpty then .string c.name
  else .object [("name", .string c.name), ("args", .array c.args)]

/-- The entry for where a field takes its value from. -/
def Source.entry : Source → String × Value
  | .path text => ("source", .string text)
  | .constant value => ("value", value)

def Field.entries (f : Field) : List (String × Value) :=
  f.source.entry ::
    (entryIf (!f.transforms.isEmpty) "transforms" (.array (f.transforms.map Call.tree))
      ++ ("target", .string f.target) :: entryIf f.optional "optional" (.bool true))

mutual

def Node.tree : Node → Value
  | .field f => .object (("kind", .string "field") :: f.entries)
  | .condition test yes none =>
    .object [("kind", .string "condition"), ("when", test.tree), ("then", Node.tree yes)]
  | .condition test yes (some no) =>
    .object
      [("kind", .string "condition"), ("when", test.tree), ("then", Node.tree yes),
        ("else", Node.tree no)]
  | .merge inputs policy target =>
    .object
      (("kind", .string "merge")
        :: entryIf (policy != MergePolicy.standard) "policy" (.string policy.name)
        ++ entryIf (target != "") "target" (.string target)
        ++ [("inputs", .array (Node.trees inputs))])
  | .split source item target =>
    .object
      [("kind", .string "split"), ("source", .string source), ("target", .string target),
        ("item", Node.tree item)]
  | .fragment name => .object [("kind", .string "fragment"), ("name", .string name)]
  | .sequence steps =>
    .object [("kind", .string "sequence"), ("steps", .array (Node.trees steps))]

def Node.trees : List Node → List Value
  | [] => []
  | n :: ns => Node.tree n :: Node.trees ns

end

def Document.tree (d : Document) : Value :=
  .object
    ([("schemaVersion", .string d.schemaVersion), ("inputFormat", .string d.inputFormat.name),
        ("outputFormat", .string d.outputFormat.name)]
      ++ entryIf (!d.includes.isEmpty) "includes" (.array (d.includes.map Value.string))
      ++ entryIf (!d.fragments.isEmpty) "fragments"
        (.object (d.fragments.map fun (name, node) => (name, node.tree)))
      ++ [("root", d.root.tree)])

def Document.text (d : Document) : String := Json.writeDocument false d.tree

end Rule

end Remap
