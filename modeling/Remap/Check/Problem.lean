import Remap.Diagnostic
import Remap.Path.Parser
import Remap.Path.Basic
import Remap.Rule.Place
import Remap.Transform.Operation

/-!
# Problems of rules

What can be wrong with a rule tree whose references are replaced.
-/

namespace Remap.Check

/-- The document that a path reads or writes. -/
inductive Side where
  | input
  | output
deriving DecidableEq, Repr

def Side.name : Side → String
  | input => "input"
  | output => "output"

/-- What is wrong with a rule. -/
inductive Problem where
  | malformedSource (text : String) (error : Path.Error)
  | malformedTarget (text : String) (error : Path.Error)
  | unboundWildcards (text : String) (wildcards splits : Nat)
  | notXmlName (key text : String) (side : Side)
  | notQueryKey (key text : String)
  | unknownTransform (name : String) (meant : Option Transform)
  | arity (t : Transform) (given : Nat)
  | argument (fault : Operation.Fault)
  | unboundPlaceholder (path : String)
  | collision (target : String) (first : Rule.Place)
  | noConditions (op : String)
  | pattern (text : String) (fault : Pattern.Fault)
  | operand (op : String) (found : Kind)
  | emptyMerge
  | unresolvedFragment (name : String)
deriving DecidableEq, Repr

namespace Problem

def code : Problem → Code
  | malformedSource .. => .malformedSourcePath
  | malformedTarget .. => .malformedTargetPath
  | unboundWildcards .. | unboundPlaceholder _ => .wildcardOutsideSplit
  | notXmlName .. | notQueryKey .. => .pathNotValidForFormat
  | unknownTransform .. => .unknownTransform
  | arity .. => .transformArity
  | argument _ => .invalidTransformArgument
  | collision .. => .targetCollision
  | noConditions _ | pattern .. | operand .. => .invalidCondition
  | emptyMerge => .emptyMerge
  | unresolvedFragment _ => .unknownFragment

def message : Problem → String
  | malformedSource text error => "source path '" ++ text ++ "': " ++ error.message
  | malformedTarget text error => "target path '" ++ text ++ "': " ++ error.message
  | unboundWildcards text wildcards splits =>
    "source path '" ++ text ++ "' uses " ++ toString wildcards ++ " wildcard(s) but only "
      ++ toString splits ++ " split item(s) enclose it"
  | notXmlName key text side =>
    "key '" ++ key ++ "' in '" ++ text ++ "' is not an XML name for the " ++ side.name
      ++ " document"
  | notQueryKey key text =>
    "target key '" ++ key ++ "' in '" ++ text ++ "' cannot be written as a query parameter"
  | unknownTransform name none => "unknown transform '" ++ name ++ "'"
  | unknownTransform name (some meant) =>
    "unknown transform '" ++ name ++ "'; did you mean '" ++ meant.name ++ "'?"
  | arity t given =>
    "'" ++ t.name ++ "' takes " ++ toString t.arity ++ " argument(s), got " ++ toString given
  | argument fault => fault.message
  | unboundPlaceholder path =>
    "template placeholder '" ++ path ++ "' uses a wildcard outside an enclosing split item"
  | collision target first =>
    "target '" ++ target ++ "' is already written by " ++ first.text
      ++ "; combine the writers in a merge"
  | noConditions op => "'" ++ op ++ "' needs at least one condition"
  | pattern text fault => "invalid pattern '" ++ text ++ "': " ++ fault.message
  | operand op found =>
    "'" ++ op ++ "' compares against a number or a string, not " ++ found.name
  | emptyMerge => "merge has no inputs"
  | unresolvedFragment name => "fragment '" ++ name ++ "' was not resolved"

/-- A problem as a finding at a place. -/
def diagnostic (p : Problem) (path : String) : Diagnostic := ⟨p.code, path, p.message⟩

end Problem

end Remap.Check
