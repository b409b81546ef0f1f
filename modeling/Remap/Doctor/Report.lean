import Remap.Doctor.Conversion
import Remap.Lint
import Remap.Rule.Writer

/-!
# The doctor

The doctor proposes fixes to rules and says what is still wrong, with or without the fixes. A sample
input shows what goes wrong in a run.
-/

namespace Remap.Doctor

/-- What the doctor is asked to do. -/
structure Request where
  sample : Option String
  /-- The format of the sample, unless it is the one that the rules declare. -/
  sampleFormat : Option Format
  applyFixes : Bool
  limits : Limits

/-- What the doctor finds. -/
structure Report where
  fixes : List Fix
  appliedFixes : List Fix
  remainingErrors : List Diagnostic
  warnings : List Diagnostic
  runtimeDiagnostics : List Diagnostic
  fixedRules : Option Rule.Document
  hasUnresolvedErrors : Bool

/-- The report on a text that denotes no rules. -/
def Report.unreadable (errors : List Diagnostic) : Report := ⟨[], [], errors, [], [], none, true⟩

/-- A sample that cannot be read. -/
structure BadSample where
  error : Payload.ReadError

/-- The wording of a sample that cannot be read. -/
def BadSample.message (s : BadSample) : String := "sample input: " ++ s.error.message

def Request.read (r : Request) (document : Rule.Document) : Except BadSample (Option Value) :=
  match r.sample with
  | none => .ok none
  | some text =>
    match Payload.read (r.sampleFormat.getD document.inputFormat) r.limits text with
    | .ok v => .ok (some v)
    | .error error => .error ⟨error⟩

def fixText (document : Rule.Document) : Fixed Rule.Document :=
  let fragments := document.fragments.map fun (name, node) =>
    (fun node => (name, node)) <$> fixNode (Rule.fragmentPlace "" name) node
  ({ document with root := ·, fragments := · }) <$> fixNode .root document.root
    <*> Fixed.all fragments

def fix (source : Fragment.Source) (document : Rule.Document) (sample : Option Value) :
    Fixed Rule.Document :=
  let mended := fixText document
  match sample with
  | none => mended
  | some sample =>
    let converted := fixConversions source mended.value sample
    ⟨converted.value, mended.fixes ++ converted.fixes⟩

/-- What goes wrong in a run on a sample, errors first. Rules that do not compile do not run. -/
def runSample (source : Fragment.Source) (document : Rule.Document) (sample : Option Value) :
    List Diagnostic :=
  match sample, Plan.compile source document with
  | some sample, .ok plan =>
    let outcome := Run.execute plan sample
    outcome.errors ++ outcome.warnings
  | _, _ => []

def examineDocument (source : Fragment.Source) (document : Rule.Document) (sample : Option Value)
    (applyFixes : Bool) : Report :=
  let fixed := fix source document sample
  let final := if applyFixes then fixed.value else document
  let (errors, warnings) := (Lint.document source final).partition Diagnostic.isError
  let found := runSample source final sample
  { fixes := fixed.fixes
    appliedFixes := if applyFixes then fixed.fixes else []
    remainingErrors := errors
    warnings
    runtimeDiagnostics := found
    fixedRules := if applyFixes then some fixed.value else none
    hasUnresolvedErrors := !errors.isEmpty || Diagnostic.hasErrors found }

def examine (source : Fragment.Source) (text : String) (request : Request) :
    Except BadSample Report :=
  match Rule.Document.parse text with
  | .error errors => .ok (.unreadable errors)
  | .ok document => do
    let sample ← request.read document
    .ok (examineDocument source document sample request.applyFixes)

def Report.report (r : Report) : Value :=
  .object <|
    [("fixes", .array (r.fixes.map Fix.report)),
      ("appliedFixes", .array (r.appliedFixes.map Fix.report)),
      ("remainingErrors", Diagnostic.reports r.remainingErrors),
      ("warnings", Diagnostic.reports r.warnings),
      ("runtimeDiagnostics", Diagnostic.reports r.runtimeDiagnostics)]
      ++ (r.fixedRules.toList.map fun d => ("fixedRules", d.tree))
      ++ [("hasUnresolvedErrors", .bool r.hasUnresolvedErrors)]

end Remap.Doctor
