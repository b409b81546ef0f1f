import Remap.Compatibility.History
import Remap.Rule.Walk

/-!
# Compatibility with versions

Rules are compatible with a version of the schema if that version is known, is not older than the
one they declare, and has every construct that they use. Constructs that are deprecated or that mean
something else are told of but do no harm.
-/

namespace Remap.Compatibility

/-- Something to be known about rules and a target version. -/
inductive Reason where
  | targetMajor (target : Version)
  | schemaVersion (declared target : Version)
  | notYetIntroduced (construct : Construct) (introduced : Version)
  | removed (construct : Construct) (version : Version)
  | deprecated (construct : Construct) (version : Version)
  | behaviorChange (construct : Construct) (version : Version) (what : String)
deriving DecidableEq, Repr

namespace Reason

def kindName : Reason → String
  | targetMajor _ => "targetMajor"
  | schemaVersion .. => "schemaVersion"
  | notYetIntroduced .. => "notYetIntroduced"
  | removed .. => "removed"
  | deprecated .. => "deprecated"
  | behaviorChange .. => "behaviorChange"

def about : Reason → String
  | targetMajor target => "target " ++ target.text
  | schemaVersion declared _ => "schemaVersion " ++ declared.text
  | notYetIntroduced construct _ | removed construct _ | deprecated construct _
  | behaviorChange construct _ _ => construct.text

def message : Reason → String
  | targetMajor target =>
    "target " ++ target.text ++ " is a newer major version than this engine ("
      ++ Version.newest.text ++ ")"
  | schemaVersion declared target =>
    "document declares schema " ++ declared.text ++ " but the target is " ++ target.text
  | notYetIntroduced construct introduced =>
    construct.text ++ " was introduced in " ++ introduced.text
  | removed construct version => construct.text ++ " was removed in " ++ version.text
  | deprecated construct version => construct.text ++ " is deprecated since " ++ version.text
  | behaviorChange construct version what =>
    construct.text ++ " changed in " ++ version.text ++ ": " ++ what

/-- Whether a reason stands in the way. -/
def isBreaking : Reason → Bool
  | deprecated .. | behaviorChange .. => false
  | _ => true

def report (r : Reason) : Value :=
  .object
    [("kind", .string r.kindName), ("construct", .string r.about), ("message", .string r.message)]

end Reason

/-! ## Constructs -/

mutual

/-- The operators of a condition, from the outside in. -/
def conditionOps : Condition → List String
  | .and conditions => "and" :: allConditionOps conditions
  | .or conditions => "or" :: allConditionOps conditions
  | .not condition => "not" :: conditionOps condition
  | .equals .. => ["equals"]
  | .exists _ => ["exists"]
  | .matches .. => ["matches"]
  | .literal _ => ["literal"]
  | .greaterThan .. => ["greaterThan"]
  | .lessThan .. => ["lessThan"]

def allConditionOps : List Condition → List String
  | [] => []
  | c :: cs => conditionOps c ++ allConditionOps cs

end

/-- The constructs that a node uses, apart from the nodes below it. -/
def nodeConstructs (node : Rule.Node) : List Construct :=
  ⟨.nodeKind, node.kind⟩ ::
    match node with
    | .field f => f.transforms.map fun call => ⟨.transform, call.name⟩
    | .merge _ policy _ => [⟨.mergePolicy, policy.name⟩]
    | .condition test _ _ => (conditionOps test).map fun op => ⟨.conditionOp, op⟩
    | _ => []

/-- The constructs that a document uses, its root before its own fragments. -/
def constructs (document : Rule.Document) : List Construct :=
  (document.root :: document.fragments.map (·.2)).flatMap fun tree =>
    (tree.visits .root).flatMap fun visit => nodeConstructs visit.node

/-! ## Verdicts -/

def isLater (a b : Version) : Bool := !a.le b

/-- What is to be known about a feature. -/
def assess (f : Feature) (declared : Option Version) (target : Version) : List Reason :=
  let introduced :=
    if isLater f.introduced target then [.notYetIntroduced f.construct f.introduced] else []
  let standing := match f.removed.filter (·.le target), f.deprecated.filter (·.le target) with
    | some version, _ => [.removed f.construct version]
    | none, some version => [.deprecated f.construct version]
    | none, none => []
  let changed := match f.changed, declared with
    | some (version, what), some declared =>
      let (low, high) := if declared.le target then (declared, target) else (target, declared)
      if isLater version low && version.le high then [.behaviorChange f.construct version what]
      else []
    | _, _ => []
  introduced ++ standing ++ changed

/-- What is to be known about a document and a target version: first the versions themselves, then
every construct at its first use. -/
def reasons (document : Rule.Document) (target : Version) : List Reason :=
  let declared := (Version.parse document.schemaVersion).toOption
  let major := if Version.newest.major < target.major then [Reason.targetMajor target] else []
  let schema := match declared with
    | some declared => if isLater declared target then [.schemaVersion declared target] else []
    | none => []
  major ++ schema
    ++ ((constructs document).eraseDups.filterMap Feature.of?).flatMap fun f =>
      assess f declared target

def isCompatible (reasons : List Reason) : Bool := !reasons.any Reason.isBreaking

def report (reasons : List Reason) : Value :=
  .object
    [("isCompatible", .bool (isCompatible reasons)),
      ("reasons", .array (reasons.map Reason.report))]

end Remap.Compatibility
