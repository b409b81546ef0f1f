import Remap.Diagnostic
import Remap.Payload
import Remap.Run.Output
import Remap.Transform.Apply

/-!
# Problems of runs

What can go wrong at a node while a plan runs. None of it ends the run.
-/

namespace Remap.Run

/-- What went wrong at a node. -/
inductive Problem where
  | absent (optional : Bool) (source target : String)
  /-- The operation of a number failed; the first has number nought. -/
  | transform (i : Nat) (failure : Operation.Failure)
  | conflict (target : TargetPath) (slot : Conflict)
  | notArray (source : SourcePath) (found : Kind)
  | unresolved (source : SourcePath)
  | incomparable (op : String) (found expected : Kind)
  | notRepresentable (fault : Payload.WriteFault)
deriving DecidableEq, Repr

namespace Problem

def code : Problem → Code
  | absent true .. => .optionalSourceMissing
  | absent false .. => .requiredSourceMissing
  | transform .. => .transformFailed
  | conflict .. => .targetWriteConflict
  | notArray .. | unresolved _ => .splitSourceNotArray
  | incomparable .. => .conditionTypeMismatch
  | notRepresentable _ => .outputNotRepresentable

def message : Problem → String
  | absent optional source target =>
    (if optional then "optional" else "required") ++ " source '" ++ source ++ "' is absent; '"
      ++ target ++ "' not written"
  | transform i failure => "transform " ++ toString (i + 1) ++ " failed: " ++ failure.message
  | conflict target slot =>
    "cannot write '" ++ target.text ++ "': '" ++ slot.at_.text ++ "' already holds a "
      ++ slot.existing.name
  | notArray source found =>
    "split source '" ++ source.text ++ "' is a " ++ found.name ++ ", not an array"
  | unresolved source => "split source '" ++ source.text ++ "' does not resolve"
  | incomparable op found expected =>
    "'" ++ op ++ "' compares " ++ found.name ++ " with " ++ expected.name ++ "; treated as false"
  | notRepresentable fault => fault.message

/-- A problem as a finding at a place. -/
def diagnostic (p : Problem) (path : String) : Diagnostic := ⟨p.code, path, p.message⟩

end Problem

end Remap.Run
