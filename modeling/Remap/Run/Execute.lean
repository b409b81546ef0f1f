import Remap.Plan.Basic
import Remap.Rule.Place
import Remap.Run.Merge
import Remap.Run.Output
import Remap.Run.Predicate

/-!
# Running plans

A plan runs over its nodes from the top down and in order, and each node may write to the output.
What goes wrong at a node is reported and stays there: the node writes nothing and the run goes on.
-/

namespace Remap.Run

/-- An operation that failed, with its number and the value it was given. -/
structure Failure where
  place : Rule.Place
  index : Nat
  transform : Transform
  input : Value

/-- What is reported during a run, in order. -/
structure Log where
  diagnostics : List Diagnostic
  failures : List Failure

namespace Log

def empty : Log := ⟨[], []⟩

def append (a b : Log) : Log := ⟨a.diagnostics ++ b.diagnostics, a.failures ++ b.failures⟩

instance : Append Log := ⟨append⟩

def report (p : Problem) (path : String) : Log := ⟨[p.diagnostic path], []⟩

end Log

/-- The output after a part of a run, and what that part reported. -/
structure Step where
  output : Value
  log : Log

/-- The outcome of a chain of operations: a value, or the number of the operation that failed, its
input and the cause. -/
inductive Chained where
  | value (v : Value)
  | failed (index : Nat) (op : Operation) (input : Value) (failure : Operation.Failure)

/-- Applies operations in order, of which the first has number `i`. -/
def applyAll (scope : Scope) (i : Nat) (v : Value) : List Operation → Chained
  | [] => .value v
  | op :: rest =>
    match op.apply scope.resolve? v with
    | .ok next => applyAll scope (i + 1) next rest
    | .error failure => .failed i op v failure

/-- Writes a value to the output, or reports a conflict. -/
def writeTo (output : Value) (target : TargetPath) (v : Value) (place : Rule.Place) : Step :=
  let written := Output.write output target v
  match written.conflict with
  | none => ⟨written.tree, .empty⟩
  | some conflict => ⟨written.tree, .report (.conflict target conflict) place.text⟩

/-- Whether the first operation of a field replaces absent values. -/
def startsWithDefault (f : Plan.Field) : Bool := f.operations.head?.any Operation.isDefault

/-- The value that a field starts from, or the text of the path that leads nowhere. -/
def origin (scope : Scope) (f : Plan.Field) : Except String Value :=
  match f.source with
  | .constant v => .ok v
  | .path path =>
    match scope.resolve? path with
    | some v => .ok v
    | none => if startsWithDefault f then .ok .null else .error path.text

def runField (scope : Scope) (place : Rule.Place) (f : Plan.Field) (output : Value) : Step :=
  match origin scope f with
  | .error source =>
    ⟨output, .report (.absent f.optional source f.target.text) place.text⟩
  | .ok v =>
    match applyAll scope 0 v f.operations with
    | .value v => writeTo output f.target v place
    | .failed i op input failure =>
      ⟨output, ⟨[(Problem.transform i failure).diagnostic place.text],
        [⟨place, i, op.transform, input⟩]⟩⟩

def splitItems (loneItems : Bool) (source : SourcePath) : Option Value → Except Problem (List Value)
  | some (.array items) => .ok items
  | some .null => if loneItems then .ok [] else .error (.notArray source .null)
  | some v => if loneItems then .ok [v] else .error (.notArray source v.kind)
  | none => .error (.unresolved source)

/-- Runs a rule over items, of which the first has number `k`. -/
def runItems (run : Nat → Value → Step) (k : Nat) : List Value → List Value × Log
  | [] => ([], .empty)
  | item :: rest =>
    let first := run k item
    let (results, log) := runItems run (k + 1) rest
    (first.output :: results, first.log ++ log)

mutual

def exec (scope : Scope) (place : Rule.Place) : Plan.Node → Value → Step
  | .field f, output => runField scope place f output
  | .condition test yes none, output =>
    let answer := test.test scope
    let log : Log := ⟨answer.problems.map (·.diagnostic (place.text ++ ".when")), []⟩
    if answer.holds then
      let step := exec scope (place.down .yes) yes output
      ⟨step.output, log ++ step.log⟩
    else ⟨output, log⟩
  | .condition test yes (some no), output =>
    let answer := test.test scope
    let log : Log := ⟨answer.problems.map (·.diagnostic (place.text ++ ".when")), []⟩
    let step :=
      if answer.holds then exec scope (place.down .yes) yes output
      else exec scope (place.down .no) no output
    ⟨step.output, log ++ step.log⟩
  | .merge inputs policy target, output =>
    let (branches, log) := execInputs scope place 0 inputs
    let (combined, faults) := Merge.combine policy branches
    let log := log ++ ⟨faults.map (·.diagnostic place.text), []⟩
    if combined.isVacant && policy ≠ .appendArray then ⟨output, log⟩
    else
      let step := writeTo output target combined place
      ⟨step.output, log ++ step.log⟩
  | .split source item target, output =>
    match splitItems scope.loneItems source (scope.resolve? source) with
    | .error problem => ⟨output, .report problem place.text⟩
    | .ok items =>
      let run (k : Nat) (v : Value) : Step :=
        exec (scope.enter v k) (place.down (.itemAt k)) item .null
      let (results, log) := runItems run 0 items
      let step := writeTo output target (.array results) place
      ⟨step.output, log ++ step.log⟩
  | .sequence steps, output => execSteps scope place 0 steps output

/-- Runs the steps of a sequence, of which the first that is left has number `i`. -/
def execSteps (scope : Scope) (place : Rule.Place) (i : Nat) :
    List Plan.Node → Value → Step
  | [], output => ⟨output, .empty⟩
  | n :: ns, output =>
    let first := exec scope (place.down (.step i)) n output
    let rest := execSteps scope place (i + 1) ns first.output
    ⟨rest.output, first.log ++ rest.log⟩

/-- Runs the inputs of a merge, each with an output of its own; the first has number `i`. -/
def execInputs (scope : Scope) (place : Rule.Place) (i : Nat) :
    List Plan.Node → List Value × Log
  | [] => ([], .empty)
  | n :: ns =>
    let first := exec scope (place.down (.input i)) n .null
    let (branches, log) := execInputs scope place (i + 1) ns
    (first.output :: branches, first.log ++ log)

end

/-- The outcome of a run. -/
structure Outcome where
  /-- The output, unless there are errors. -/
  output : Option Value
  errors : List Diagnostic
  warnings : List Diagnostic

/-- Whether a run ended without errors. -/
def Outcome.isSuccess (o : Outcome) : Bool := o.output.isSome

/-- Runs a plan on an input from the root of an empty object. -/
def start (plan : Plan) (input : Value) : Step :=
  exec (.ofInput plan.inputFormat input) .root plan.root (.object [])

def Step.outcome (s : Step) : Outcome :=
  let (errors, warnings) := s.log.diagnostics.partition Diagnostic.isError
  ⟨if errors.isEmpty then some s.output else none, errors, warnings⟩

def execute (plan : Plan) (input : Value) : Outcome := (start plan input).outcome

end Remap.Run
