import Remap.Value

/-!
# Diagnostics

What is found wrong with rules, or goes wrong while they run. Each finding has a code of a closed
registry, the place it is about, and a message.
-/

namespace Remap

/-- How grave a finding is. -/
inductive Severity where
  | error
  | warning
deriving DecidableEq, Repr

def Severity.name : Severity → String
  | error => "error"
  | warning => "warning"

/-- The kinds of findings: those about the rules themselves, then those of a run. -/
inductive Code where
  | invalidJson
  | invalidShape
  | unknownFormat
  | malformedSourcePath
  | malformedTargetPath
  | pathNotValidForFormat
  | unknownTransform
  | transformArity
  | invalidTransformArgument
  | targetCollision
  | wildcardOutsideSplit
  | unknownFragment
  | referenceCycle
  | invalidCondition
  | unsupportedSchemaVersion
  | includeUnavailable
  | emptyMerge
  | duplicateFragment
  | unreachableBranch
  | noOpNode
  | unusedFragment
  | transformKindMismatch
  | optionalSourceMissing
  | requiredSourceMissing
  | transformFailed
  | splitSourceNotArray
  | mergeKeyCollision
  | mergeBranchNotArray
  | targetWriteConflict
  | conditionTypeMismatch
  | outputNotRepresentable
deriving DecidableEq, Repr

namespace Code

def all : List Code :=
  [invalidJson, invalidShape, unknownFormat, malformedSourcePath, malformedTargetPath,
    pathNotValidForFormat, unknownTransform, transformArity, invalidTransformArgument,
    targetCollision, wildcardOutsideSplit, unknownFragment, referenceCycle, invalidCondition,
    unsupportedSchemaVersion, includeUnavailable, emptyMerge, duplicateFragment,
    unreachableBranch, noOpNode, unusedFragment, transformKindMismatch, optionalSourceMissing,
    requiredSourceMissing, transformFailed, splitSourceNotArray, mergeKeyCollision,
    mergeBranchNotArray, targetWriteConflict, conditionTypeMismatch, outputNotRepresentable]

def text : Code → String
  | invalidJson => "ACV-STR-001"
  | invalidShape => "ACV-STR-002"
  | unknownFormat => "ACV-STR-003"
  | malformedSourcePath => "ACV-STR-004"
  | malformedTargetPath => "ACV-STR-005"
  | pathNotValidForFormat => "ACV-STR-006"
  | unknownTransform => "ACV-STR-007"
  | transformArity => "ACV-STR-008"
  | invalidTransformArgument => "ACV-STR-009"
  | targetCollision => "ACV-STR-010"
  | wildcardOutsideSplit => "ACV-STR-011"
  | unknownFragment => "ACV-STR-012"
  | referenceCycle => "ACV-STR-013"
  | invalidCondition => "ACV-STR-014"
  | unsupportedSchemaVersion => "ACV-STR-015"
  | includeUnavailable => "ACV-STR-016"
  | emptyMerge => "ACV-STR-017"
  | duplicateFragment => "ACV-STR-018"
  | unreachableBranch => "ACV-STR-019"
  | noOpNode => "ACV-STR-020"
  | unusedFragment => "ACV-STR-021"
  | transformKindMismatch => "ACV-STR-022"
  | optionalSourceMissing => "ACV-RUN-001"
  | requiredSourceMissing => "ACV-RUN-002"
  | transformFailed => "ACV-RUN-003"
  | splitSourceNotArray => "ACV-RUN-004"
  | mergeKeyCollision => "ACV-RUN-005"
  | mergeBranchNotArray => "ACV-RUN-006"
  | targetWriteConflict => "ACV-RUN-007"
  | conditionTypeMismatch => "ACV-RUN-008"
  | outputNotRepresentable => "ACV-RUN-009"

def summary : Code → String
  | invalidJson => "rules text is not valid JSON"
  | invalidShape => "rules document or node has the wrong shape"
  | unknownFormat => "inputFormat or outputFormat is not json, xml or query"
  | malformedSourcePath => "source path does not follow the path grammar"
  | malformedTargetPath => "target path does not follow the path grammar"
  | pathNotValidForFormat => "path key cannot be expressed in the declared format"
  | unknownTransform => "transform name is not in the catalog"
  | transformArity => "transform called with the wrong number of arguments"
  | invalidTransformArgument => "transform argument is invalid"
  | targetCollision => "two steps of one sequence write the same target outside a merge"
  | wildcardOutsideSplit => "wildcard index used outside an enclosing split item"
  | unknownFragment => "fragment reference names no known fragment"
  | referenceCycle => "fragment or include references form a cycle"
  | invalidCondition => "condition expression is malformed"
  | unsupportedSchemaVersion => "schemaVersion is not supported by this engine"
  | includeUnavailable => "included library cannot be loaded or parsed"
  | emptyMerge => "merge node has no inputs"
  | duplicateFragment => "fragment name is defined more than once"
  | unreachableBranch => "branch can never run because its condition is constant"
  | noOpNode => "node has no effect"
  | unusedFragment => "fragment is never referenced"
  | transformKindMismatch => "transform receives a value kind it does not accept"
  | optionalSourceMissing => "optional source is absent; nothing written"
  | requiredSourceMissing => "required source is absent; nothing written"
  | transformFailed => "transform failed; mapping aborted"
  | splitSourceNotArray => "split source is missing or not an array"
  | mergeKeyCollision => "merge branches overlap under the error policy; key dropped"
  | mergeBranchNotArray => "appendArray merge branch did not produce an array"
  | targetWriteConflict => "write conflicts with a value already in the output"
  | conditionTypeMismatch => "ordered comparison between incompatible kinds"
  | outputNotRepresentable => "output value has no form in the output format"

/-- How grave the findings of a code are. -/
def severity : Code → Severity
  | unreachableBranch | noOpNode | unusedFragment | transformKindMismatch
  | optionalSourceMissing | conditionTypeMismatch => .warning
  | _ => .error

/-- Whether a code belongs to runs and not to the rules themselves. -/
def isRuntime : Code → Bool
  | optionalSourceMissing | requiredSourceMissing | transformFailed | splitSourceNotArray
  | mergeKeyCollision | mergeBranchNotArray | targetWriteConflict | conditionTypeMismatch
  | outputNotRepresentable => true
  | _ => false

end Code

/-- A finding: its code, the place in the rules it is about, and what is the matter. -/
structure Diagnostic where
  code : Code
  path : String
  message : String
deriving DecidableEq, Repr

namespace Diagnostic

def severity (d : Diagnostic) : Severity := d.code.severity

/-- Whether a finding is an error. -/
def isError (d : Diagnostic) : Bool := d.severity = .error

def line (d : Diagnostic) : String :=
  d.code.text ++ " " ++ d.severity.name ++ " at " ++ d.path ++ ": " ++ d.message

/-- A finding as an entry of a report. -/
def report (d : Diagnostic) : Value :=
  .object
    [("code", .string d.code.text), ("severity", .string d.severity.name),
      ("path", .string d.path), ("message", .string d.message)]

/-- Findings as entries of a report. -/
def reports (ds : List Diagnostic) : Value := .array (ds.map report)

def hasErrors (ds : List Diagnostic) : Bool := ds.any isError

end Diagnostic

end Remap
