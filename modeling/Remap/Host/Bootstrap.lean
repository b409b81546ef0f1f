import Remap.Plan.Compile

/-!
# Generated rules

Rules may be made by a generator from examples. They are taken over only if they compile.
-/

namespace Remap.Host

/-- Why generated rules are not taken over. -/
inductive BootstrapError where
  | generator (reason : String)
  | rejected (errors : List Diagnostic)

def BootstrapError.message : BootstrapError → String
  | generator reason => "rules generator failed: " ++ reason
  | rejected errors =>
    "generated rules do not compile (" ++ toString errors.length ++ " diagnostics)"

/-- Rules with their plan. -/
structure Generated where
  text : String
  plan : Plan

/-- Takes over what a generator made, which is a text or the reason why there is none. -/
def bootstrap (source : Fragment.Source) (made : Except String String) :
    Except BootstrapError Generated := do
  let text ← made.mapError BootstrapError.generator
  let plan ← (Plan.compileText source text).mapError BootstrapError.rejected
  .ok ⟨text, plan⟩

end Remap.Host
