import Remap.Diagnostic
import Remap.Path.Basic
import Remap.Rule.Basic

/-!
# Merging branches

The branches of a merge are combined in order. Branches that wrote nothing are passed over. Objects
are merged entry by entry, and the policy decides only where something else is met: the later value
stays, or the earlier, or neither. A place at which neither stays is dropped, and no later value is
merged into it.
-/

namespace Remap.Run

/-- What is found wrong with the branches of a merge. -/
inductive MergeFault where
  /-- Two branches write the same place. -/
  | collision (at_ : TargetPath)
  | notArray (branch : Nat) (found : Kind)
deriving DecidableEq, Repr

namespace MergeFault

def diagnostic (path : String) : MergeFault → Diagnostic
  | collision p =>
    ⟨.mergeKeyCollision, path, "merge branches both write '" ++ p.text ++ "'; key dropped"⟩
  | notArray branch found =>
    ⟨.mergeBranchNotArray, path ++ ".inputs[" ++ toString branch ++ "]",
      "appendArray needs every branch to produce an array, got " ++ found.name
        ++ "; branch dropped"⟩

end MergeFault

namespace Merge

/-- A merged value and the places dropped so far, in order. -/
structure State where
  value : Value
  dropped : List TargetPath

/-- The entries of a merged object and the places dropped so far. -/
structure FieldState where
  fields : List (String × Value)
  dropped : List TargetPath

def key (p : TargetPath) (name : String) : TargetPath := ⟨p.segments ++ [.key name]⟩

/-- What stays of two values that are not both objects. -/
def settle (policy : MergePolicy) (p : TargetPath) (existing incoming : Value)
    (dropped : List TargetPath) : State :=
  match policy with
  | .firstWins => ⟨existing, dropped⟩
  | .error => ⟨.null, dropped ++ [p]⟩
  | _ => ⟨incoming, dropped⟩

def bothObjects : Value → Value → Bool
  | .object _, .object _ => true
  | _, _ => false

mutual

def mergeValue (policy : MergePolicy) (p : TargetPath) (existing : Value)
    (dropped : List TargetPath) : Value → State
  | .object incoming =>
    if dropped.contains p then ⟨existing, dropped⟩
    else if existing.isVacant then ⟨.object incoming, dropped⟩
    else match existing with
      | .object fields =>
        let merged := mergeFields policy p fields dropped incoming
        ⟨.object merged.fields, merged.dropped⟩
      | existing => settle policy p existing (.object incoming) dropped
  | incoming =>
    if dropped.contains p then ⟨existing, dropped⟩
    else if existing.isVacant then ⟨incoming, dropped⟩
    else settle policy p existing incoming dropped

/-- The entries of an object with others merged into them. -/
def mergeFields (policy : MergePolicy) (p : TargetPath) (fields : List (String × Value))
    (dropped : List TargetPath) : List (String × Value) → FieldState
  | [] => ⟨fields, dropped⟩
  | (name, value) :: rest =>
    let child := key p name
    if dropped.contains child then mergeFields policy p fields dropped rest
    else match Entries.get? name fields with
      | none => mergeFields policy p (Entries.put name value fields) dropped rest
      | some existing =>
        if policy = .error && !existing.isVacant && !bothObjects existing value then
          mergeFields policy p (Entries.erase name fields) (dropped ++ [child]) rest
        else
          let merged := mergeValue policy child existing dropped value
          mergeFields policy p (Entries.put name merged.value fields) merged.dropped rest

end

def fold (policy : MergePolicy) (branches : List Value) : State :=
  (branches.filter fun b => !b.isVacant).foldl
    (fun st branch => mergeValue policy ⟨[]⟩ st.value st.dropped branch) ⟨.null, []⟩

/-- The items of the arrays among branches, of which the first has number `i`, and the branches
that are neither arrays nor vacant. -/
def append (i : Nat) : List Value → List Value × List MergeFault
  | [] => ([], [])
  | branch :: rest =>
    let (items, faults) := append (i + 1) rest
    match branch with
    | .array own => (own ++ items, faults)
    | branch =>
      if branch.isVacant then (items, faults) else (items, .notArray i branch.kind :: faults)

/-- The value that branches are combined into under a policy, and what is wrong with them. -/
def combine (policy : MergePolicy) (branches : List Value) : Value × List MergeFault :=
  match policy with
  | .appendArray =>
    let (items, faults) := append 0 branches
    (.array items, faults)
  | policy =>
    let st := fold policy branches
    (st.value, st.dropped.map MergeFault.collision)

end Merge

end Remap.Run
