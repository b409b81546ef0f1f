import Remap.Check.Resolved
import Remap.Fragment.Bundle
import Remap.Plan.Lowering

/-!
# Compiling

Rules are compiled to a plan in three steps: the document is bundled, the bundle is checked, and
what passes is lowered. Any error stands in the way of a plan, and then all findings are reported.
-/

namespace Remap.Plan

def findings (bundle : Fragment.Bundle) : List Diagnostic :=
  bundle.problems ++ Check.resolved bundle.document

/-- The plan of a document, or why there is none. -/
def compile (source : Fragment.Source) (document : Rule.Document) :
    Except (List Diagnostic) Plan :=
  let bundle := Fragment.bundle source document
  let found := findings bundle
  if Diagnostic.hasErrors found then .error found else ofDocument bundle.document

/-- The plan of the document that a text denotes, or why there is none. -/
def compileText (source : Fragment.Source) (text : String) : Except (List Diagnostic) Plan := do
  let document ← Rule.Document.parse text
  compile source document

/-- The verdict on rules: what stands in the way of a plan. -/
structure Verdict where
  errors : List Diagnostic

def Verdict.isValid (v : Verdict) : Bool := v.errors.isEmpty

def validate (source : Fragment.Source) (text : String) : Verdict :=
  match compileText source text with
  | .ok _ => ⟨[]⟩
  | .error errors => ⟨errors⟩

def Verdict.report (v : Verdict) : Value :=
  .object [("isValid", .bool v.isValid), ("errors", Diagnostic.reports v.errors)]

end Remap.Plan
