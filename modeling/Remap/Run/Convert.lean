import Remap.Run.Execute

/-!
# Converting payloads

A payload is read, a plan runs on what it says, and the output is written as a payload.
-/

namespace Remap.Run

/-- The outcome of a conversion. -/
structure Converted where
  /-- The payload, unless there are errors. -/
  text : Option String
  outcome : Outcome

/-- The payload of an outcome. An output that the format cannot hold is an error at the root. -/
def Outcome.write (o : Outcome) (format : Format) (pretty : Bool) : Converted :=
  match o.output with
  | none => ⟨none, o⟩
  | some output =>
    match Payload.write format pretty output with
    | .ok text => ⟨some text, o⟩
    | .error fault =>
      let error := (Problem.notRepresentable fault).diagnostic Rule.Place.root.text
      ⟨none, { o with output := none, errors := o.errors ++ [error] }⟩

def convert (plan : Plan) (text : String) (source target : Format) (pretty : Bool)
    (limits : Limits) : Except Payload.ReadError Converted := do
  let input ← Payload.read source limits text
  .ok ((execute plan input).write target pretty)

end Remap.Run
