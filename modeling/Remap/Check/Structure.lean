import Remap.Check.Problem
import Remap.Rule.Walk

/-!
# Checking structure

Two steps of one sequence must not write the same target, unless a merge combines them; the branches
of a condition count as one step. Conditions must make sense, and merges must have inputs.
-/

namespace Remap.Rule.Node

mutual

/-- The targets that a node writes into the scope around it. Malformed targets are left out, merges
settle their own targets, and what a fragment writes is not known. -/
def writes : Node → List TargetPath
  | field f => (TargetPath.parse f.target).toOption.toList
  | split _ _ target => (TargetPath.parse target).toOption.toList
  | condition _ yes none => writes yes
  | condition _ yes (some no) => writes yes ++ writes no
  | sequence steps => allWrites steps
  | merge .. | fragment _ => []

def allWrites : List Node → List TargetPath
  | [] => []
  | n :: ns => writes n ++ allWrites ns

end

/-- The texts of the targets that a node writes, each once. -/
def targets (node : Node) : List String := (node.writes.map TargetPath.text).eraseDups

end Remap.Rule.Node

namespace Remap.Check

/-- Targets, each with the number of the first step that writes it. -/
abbrev Taken := Entries Nat

/-- The targets of a step that earlier steps have taken. -/
def collisions (taken : Taken) (sequence : Rule.Place) (targets : List String) : List Problem :=
  targets.filterMap fun target =>
    (taken.get? target).map fun first => .collision target (sequence.down (.step first))

def take (taken : Taken) (i : Nat) (targets : List String) : Taken :=
  taken ++ (targets.filter fun target => !taken.has target).map fun target => (target, i)

/-- The collisions between the steps of a sequence, of which the first that is left has number `i`
and is visited as number `index`. -/
def stepProblems (sequence : Rule.Place) (taken : Taken) (i index : Nat) :
    List Rule.Node → List (Nat × Diagnostic)
  | [] => []
  | step :: rest =>
    let targets := step.targets
    (collisions taken sequence targets).map
        (fun p => (index, p.diagnostic (sequence.down (.step i)).text))
      ++ stepProblems sequence (take taken i targets) (i + 1) (index + step.size) rest

/-- What is wrong with an ordered comparison: it must be with something that has an order. -/
def operandProblems (path op : String) (value : Value) : List Diagnostic :=
  match value with
  | .number _ | .string _ => []
  | value => [(Problem.operand op value.kind).diagnostic path]

mutual

def conditionProblems (path : String) : Condition → List Diagnostic
  | .and conditions =>
    (if conditions.isEmpty then [(Problem.noConditions "and").diagnostic path] else [])
      ++ partProblems path 0 conditions
  | .or conditions =>
    (if conditions.isEmpty then [(Problem.noConditions "or").diagnostic path] else [])
      ++ partProblems path 0 conditions
  | .not condition => conditionProblems (path ++ ".condition") condition
  | .matches _ pattern =>
    match Pattern.parse pattern with
    | .ok _ => []
    | .error fault => [(Problem.pattern pattern fault).diagnostic path]
  | .greaterThan _ value => operandProblems path "greaterThan" value
  | .lessThan _ value => operandProblems path "lessThan" value
  | .equals .. | .exists _ | .literal _ => []

/-- What is wrong with the parts of a condition, of which the first has number `i`. -/
def partProblems (path : String) (i : Nat) : List Condition → List Diagnostic
  | [] => []
  | c :: cs =>
    conditionProblems (path ++ ".conditions" ++ Rule.Step.indexText i) c
      ++ partProblems path (i + 1) cs

end

/-- What is wrong with the structure of a node, each finding with the number of a visit. -/
def structureProblems (visit : Rule.Visit) : List (Nat × Diagnostic) :=
  match visit.node with
  | .sequence steps => stepProblems visit.place [] 0 (visit.index + 1) steps
  | .condition test _ _ =>
    (conditionProblems (visit.place.text ++ ".when") test).map fun d => (visit.index, d)
  | .merge [] _ _ => [(visit.index, Problem.emptyMerge.diagnostic visit.place.text)]
  | _ => []

end Remap.Check
