import Remap.Path.Repair
import Remap.Rule.Basic
import Remap.Rule.Place
import Remap.Transform.Basic

/-!
# Fixes

A fix is one change to rules. Fixes that need no sample are made to paths that are malformed by a
slip, and to names of transforms that differ from those of the catalog in case or in white space at
the ends. All fixes of a tree are made in one pass, in the order of its parts.
-/

namespace Remap.Doctor

/-- What a fix changes. -/
inductive Change where
  | path (old new : String)
  | name (old : String) (t : Transform)
  /-- A conversion goes in front of a transform that was given a kind it does not accept. -/
  | conversion (t : Transform) (next : String) (given : Kind)
deriving DecidableEq, Repr

namespace Change

def kindName : Change → String
  | path .. => "normalizePath"
  | name .. => "canonicalTransformName"
  | conversion .. => "insertConversion"

def message : Change → String
  | path old new => "'" ++ old ++ "' → '" ++ new ++ "'"
  | name old t => "'" ++ old ++ "' → '" ++ t.name ++ "'"
  | conversion t next given =>
    "insert '" ++ t.name ++ "' before '" ++ next ++ "': the sample gave it a " ++ given.name
      ++ "; the conversion applies to every scalar kind"

end Change

/-- A change at a place. -/
structure Fix where
  change : Change
  path : String
deriving DecidableEq, Repr

def Fix.report (f : Fix) : Value :=
  .object
    [("kind", .string f.change.kindName), ("path", .string f.path),
      ("message", .string f.change.message)]

/-- A part of rules with the fixes made to it. -/
structure Fixed (α : Type) where
  value : α
  fixes : List Fix

namespace Fixed

variable {α β : Type}

instance : Functor Fixed where
  map f x := ⟨f x.value, x.fixes⟩

instance : Applicative Fixed where
  pure x := ⟨x, []⟩
  seq f x :=
    let x := x ()
    ⟨f.value x.value, f.fixes ++ x.fixes⟩

/-- The parts of a list with the fixes made to them. -/
def all : List (Fixed α) → Fixed (List α)
  | [] => pure []
  | x :: rest => List.cons <$> x <*> all rest

end Fixed

/-- The path that was meant by a path into the input. -/
def fixSource (path text : String) : Fixed String :=
  match Path.repair? text with
  | some meant => ⟨meant, [⟨.path text meant, path ++ ".source"⟩]⟩
  | none => pure text

/-- The path that was meant by a path into the output, if it is one. -/
def fixTarget (path text : String) : Fixed String :=
  match TargetPath.parse text, Path.repair? text with
  | .error _, some meant =>
    match TargetPath.parse meant with
    | .ok _ => ⟨meant, [⟨.path text meant, path ++ ".target"⟩]⟩
    | .error _ => pure text
  | _, _ => pure text

def fixCall (path : String) (call : Rule.Call) : Fixed Rule.Call :=
  match Transform.ofName? call.name, Transform.ofLooseName? call.name with
  | none, some t => ⟨{ call with name := t.name }, [⟨.name call.name t, path⟩]⟩
  | _, _ => pure call

/-- The origin of a field's value that was meant. -/
def fixOrigin (path : String) : Rule.Source → Fixed Rule.Source
  | .path text => Rule.Source.path <$> fixSource path text
  | .constant value => pure (.constant value)

def fixField (path : String) (f : Rule.Field) : Fixed Rule.Field :=
  let calls := f.transforms.zipIdx.map fun (call, i) =>
    fixCall (path ++ ".transforms" ++ Rule.Step.indexText i) call
  (⟨·, ·, ·, f.optional⟩) <$> fixOrigin path f.source <*> Fixed.all calls
    <*> fixTarget path f.target

mutual

def fixCondition (path : String) : Condition → Fixed Condition
  | .equals source value => (Condition.equals · value) <$> fixSource path source
  | .exists source => Condition.exists <$> fixSource path source
  | .matches source pattern => (Condition.matches · pattern) <$> fixSource path source
  | .greaterThan source value => (Condition.greaterThan · value) <$> fixSource path source
  | .lessThan source value => (Condition.lessThan · value) <$> fixSource path source
  | .and conditions => Condition.and <$> fixConditions path 0 conditions
  | .or conditions => Condition.or <$> fixConditions path 0 conditions
  | .not condition => Condition.not <$> fixCondition (path ++ ".condition") condition
  | .literal value => pure (.literal value)

/-- The conditions that were meant, of which the first has number `i`. -/
def fixConditions (path : String) (i : Nat) : List Condition → Fixed (List Condition)
  | [] => pure []
  | c :: cs =>
    List.cons <$> fixCondition (path ++ ".conditions" ++ Rule.Step.indexText i) c
      <*> fixConditions path (i + 1) cs

end

mutual

def fixNode (place : Rule.Place) : Rule.Node → Fixed Rule.Node
  | .field f => Rule.Node.field <$> fixField place.text f
  | .condition test yes none =>
    (Rule.Node.condition · · none) <$> fixCondition (place.text ++ ".when") test
      <*> fixNode (place.down .yes) yes
  | .condition test yes (some no) =>
    (Rule.Node.condition · · <| some ·) <$> fixCondition (place.text ++ ".when") test
      <*> fixNode (place.down .yes) yes <*> fixNode (place.down .no) no
  | .merge inputs policy target =>
    (Rule.Node.merge · policy ·) <$> fixNodes (fun i => place.down (.input i)) 0 inputs
      <*> fixTarget place.text target
  | .split source item target =>
    Rule.Node.split <$> fixSource place.text source <*> fixNode (place.down .item) item
      <*> fixTarget place.text target
  | .fragment name => pure (.fragment name)
  | .sequence steps =>
    Rule.Node.sequence <$> fixNodes (fun i => place.down (.step i)) 0 steps

/-- The trees that were meant, of which the first stands at `place i`. -/
def fixNodes (place : Nat → Rule.Place) (i : Nat) : List Rule.Node → Fixed (List Rule.Node)
  | [] => pure []
  | n :: ns => List.cons <$> fixNode (place i) n <*> fixNodes place (i + 1) ns

end

end Remap.Doctor
