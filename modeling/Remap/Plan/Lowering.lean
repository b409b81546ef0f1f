import Remap.Check.Node
import Remap.Plan.Basic
import Remap.Reading

/-!
# Lowering

A rule tree is lowered to a plan by reading all that it holds as text. What cannot be read is
reported at its place, and there is a plan only where nothing is.
-/

namespace Remap.Plan

/-- A part that could not be lowered, for one reason. -/
def refuse {α : Type} (path : String) (problem : Check.Problem) : Reading α :=
  .rejected (problem.diagnostic path)

def lowerSource (path text : String) : Reading SourcePath :=
  match SourcePath.parse text with
  | .ok p => pure p
  | .error error => refuse path (.malformedSource text error)

def lowerTarget (path text : String) : Reading TargetPath :=
  match TargetPath.parse text with
  | .ok p => pure p
  | .error error => refuse path (.malformedTarget text error)

def lowerPattern (path text : String) : Reading Pattern.Matcher :=
  match Pattern.parse text with
  | .ok pattern => pure (.ofPattern pattern)
  | .error fault => refuse path (.pattern text fault)

def lowerCall (path : String) (call : Rule.Call) : Reading Operation :=
  match Transform.ofName? call.name with
  | none => refuse path (.unknownTransform call.name none)
  | some t =>
    match Operation.build t call.args with
    | .ok op => pure op
    | .error fault => refuse path (.argument fault)

/-- Lowers the origin of a field's value. -/
def lowerOrigin (path : String) : Rule.Source → Reading Source
  | .path text => Source.path <$> lowerSource path text
  | .constant value => pure (.constant value)

def lowerField (place : Rule.Place) (f : Rule.Field) : Reading Field :=
  let make (source : Source) (operations : List Operation) (target : TargetPath) : Field :=
    ⟨source, operations, target, f.optional⟩
  make <$> lowerOrigin place.text f.source
    <*> Reading.all
      (f.transforms.zipIdx.map fun (call, i) => lowerCall (Check.callPath place i) call)
    <*> lowerTarget place.text f.target

mutual

def lowerCondition (path : String) : Condition → Reading Predicate
  | .equals source value => (Predicate.equals · value) <$> lowerSource path source
  | .exists source => Predicate.exists <$> lowerSource path source
  | .matches source pattern =>
    (Predicate.matches · pattern ·) <$> lowerSource path source <*> lowerPattern path pattern
  | .and conditions => Predicate.and <$> lowerConditions path 0 conditions
  | .or conditions => Predicate.or <$> lowerConditions path 0 conditions
  | .not condition => Predicate.not <$> lowerCondition (path ++ ".condition") condition
  | .literal value => pure (.literal value)
  | .greaterThan source value => (Predicate.greaterThan · value) <$> lowerSource path source
  | .lessThan source value => (Predicate.lessThan · value) <$> lowerSource path source

/-- Lowers the conditions of a list, of which the first has number `i`. -/
def lowerConditions (path : String) (i : Nat) : List Condition → Reading (List Predicate)
  | [] => pure []
  | c :: cs =>
    List.cons <$> lowerCondition (path ++ ".conditions" ++ Rule.Step.indexText i) c
      <*> lowerConditions path (i + 1) cs

end

mutual

def lowerNode (place : Rule.Place) : Rule.Node → Reading Node
  | .field f => Node.field <$> lowerField place f
  | .condition test yes none =>
    (Node.condition · · none) <$> lowerCondition (place.text ++ ".when") test
      <*> lowerNode (place.down .yes) yes
  | .condition test yes (some no) =>
    (Node.condition · · <| some ·) <$> lowerCondition (place.text ++ ".when") test
      <*> lowerNode (place.down .yes) yes <*> lowerNode (place.down .no) no
  | .merge inputs policy target =>
    (fun target inputs => Node.merge inputs policy target) <$> lowerTarget place.text target
      <*> lowerNodes (fun i => place.down (.input i)) 0 inputs
  | .split source item target =>
    (fun source target item => Node.split source item target) <$> lowerSource place.text source
      <*> lowerTarget place.text target <*> lowerNode (place.down .item) item
  | .fragment name => refuse place.text (.unresolvedFragment name)
  | .sequence steps => Node.sequence <$> lowerNodes (fun i => place.down (.step i)) 0 steps

/-- Lowers the rule trees of a list, of which the first stands at `place i`. -/
def lowerNodes (place : Nat → Rule.Place) (i : Nat) : List Rule.Node → Reading (List Node)
  | [] => pure []
  | n :: ns => List.cons <$> lowerNode (place i) n <*> lowerNodes place (i + 1) ns

end

/-- The plan of a document without fragments, or why there is none. -/
def ofDocument (document : Rule.Document) : Except (List Diagnostic) Plan :=
  ((⟨document.schemaVersion, document.inputFormat, document.outputFormat, ·⟩ : Node → Plan) <$>
    lowerNode .root document.root).result

end Remap.Plan
