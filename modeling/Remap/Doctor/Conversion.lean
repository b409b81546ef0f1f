import Remap.Doctor.Fix
import Remap.Plan.Compile
import Remap.Run.Execute

/-!
# Conversions

A sample shows which transforms are given a kind of value that they do not accept. Where a text may
be read as a number, or a number or a truth written as text, and the transform accepts that, the
conversion goes in front of the transform.
-/

namespace Remap.Doctor

def conversionOf (t : Transform) (given : Kind) : Option Operation :=
  if t.acceptsKind given then none
  else match given with
    | .string => if t.acceptsKind .number then some .toNumber else none
    | .number | .bool => if t.acceptsKind .string then some .toText else none
    | _ => none

/-- A conversion to be inserted in front of a transform of a field. -/
structure Insertion where
  place : Rule.Place
  index : Nat
  conversion : Transform
  given : Kind

/-- The conversion that makes a failure go away, if it can be made of the value that was given. -/
def insertion? (sample : Value) (f : Run.Failure) : Option Insertion := do
  let op ← conversionOf f.transform f.input.kind
  match op.apply (Run.Scope.ofInput .json sample).resolve? f.input with
  | .ok _ => some ⟨f.place.static, f.index, op.transform, f.input.kind⟩
  | .error _ => none

/-- The first failure of each transform of each field, whatever the items it ran for. -/
def firstFailures (seen : List (Rule.Place × Nat)) : List Run.Failure → List Run.Failure
  | [] => []
  | f :: rest =>
    let key := (f.place.static, f.index)
    if seen.contains key then firstFailures seen rest else f :: firstFailures (key :: seen) rest

/-- Whether an insertion comes before another: by the text of the place and then the last transform
first, so that no insertion moves the place of a later one. -/
def Insertion.comesBefore (a b : Insertion) : Bool :=
  match compare a.place.text b.place.text with
  | .lt => true
  | .eq => b.index ≤ a.index
  | .gt => false

def insertions (sample : Value) (failures : List Run.Failure) : List Insertion :=
  ((firstFailures [] failures).filterMap (insertion? sample)).mergeSort Insertion.comesBefore

/-- A tree with an insertion made, if the tree has the transform. What a fragment brought in is not
in the tree. -/
def insert (root : Rule.Node) (i : Insertion) : Fixed Rule.Node :=
  match root.find? i.place.steps with
  | some (.field f) =>
    match f.transforms[i.index]? with
    | some next =>
      let f := { f with transforms := f.transforms.insertIdx i.index ⟨i.conversion.name, []⟩ }
      ⟨root.mapAt (fun _ => .field f) i.place.steps,
        [⟨.conversion i.conversion next.name i.given,
          i.place.text ++ ".transforms" ++ Rule.Step.indexText i.index⟩]⟩
    | none => pure root
  | _ => pure root

/-- A tree with insertions made one after the other. -/
def insertAll (root : Rule.Node) : List Insertion → Fixed Rule.Node
  | [] => pure root
  | i :: rest =>
    let first := insert root i
    let later := insertAll first.value rest
    ⟨later.value, first.fixes ++ later.fixes⟩

/-- A document with the conversions that a sample calls for, if the document compiles. -/
def fixConversions (source : Fragment.Source) (document : Rule.Document) (sample : Value) :
    Fixed Rule.Document :=
  match Plan.compile source document with
  | .error _ => pure document
  | .ok plan =>
    let failures := (Run.start plan sample).log.failures
    ({ document with root := · }) <$> insertAll document.root (insertions sample failures)

end Remap.Doctor
