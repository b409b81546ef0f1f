import Remap.Check.Problem
import Remap.Rule.Walk
import Remap.Xml.Name

/-!
# Checking nodes

Every path of a rule tree must be well formed, must find an enclosing split for each of its
wildcards, and may only use keys that the format of its document has. Every call must name a
transform of the catalog and give it as many arguments as it takes, of a kind that it takes. The
wildcards of a template's placeholders must find their splits.
-/

namespace Remap.Check

/-! ## Paths -/

def xmlProblems (text : String) (side : Side) (keys : List String) : List Problem :=
  (keys.filter fun key => !Xml.isKey key).map fun key => .notXmlName key text side

def isQueryKey (key : String) : Bool :=
  !key.isEmpty && !key.toList.any fun c => c == '=' || c == '&' || c == '[' || c == ']'

/-- What is wrong with a path into the input. -/
def sourceProblems (format : Format) (splits : Nat) (text : String) : List Problem :=
  match SourcePath.parse text with
  | .error error => [.malformedSource text error]
  | .ok path =>
    (if splits < path.wildcards then [.unboundWildcards text path.wildcards splits] else [])
      ++ if format = .xml then xmlProblems text .input path.keys else []

/-- What is wrong with a path into the output. -/
def targetProblems (format : Format) (text : String) : List Problem :=
  match TargetPath.parse text with
  | .error error => [.malformedTarget text error]
  | .ok path =>
    match format with
    | .json => []
    | .xml => xmlProblems text .output path.keys
    | .query => (path.keys.filter fun key => !isQueryKey key).map fun key => .notQueryKey key text

/-- What is wrong with the paths of a node, in the order in which they are used. -/
def pathProblems (document : Rule.Document) (visit : Rule.Visit) : List Diagnostic :=
  let path := visit.place.text
  let source (path text : String) : List Diagnostic :=
    (sourceProblems document.inputFormat visit.splitDepth text).map (·.diagnostic path)
  let target (text : String) : List Diagnostic :=
    (targetProblems document.outputFormat text).map (·.diagnostic path)
  match visit.node with
  | .field f =>
    (match f.source with
      | .path text => source path text
      | .constant _ => []) ++ target f.target
  | .split text _ into => source path text ++ target into
  | .merge _ _ into => target into
  | .condition test _ _ => test.sources.flatMap (source (path ++ ".when"))
  | .sequence _ | .fragment _ => []

/-! ## Calls -/

def callProblems (splits : Nat) (call : Rule.Call) : List Problem :=
  match Transform.ofName? call.name with
  | none => [.unknownTransform call.name (Transform.ofLooseName? call.name)]
  | some t =>
    if call.args.length ≠ t.arity then [.arity t call.args.length]
    else match Operation.build t call.args with
      | .error fault => [.argument fault]
      | .ok op =>
        (op.paths.filter fun path => splits < path.wildcards).map fun path =>
          .unboundPlaceholder path.text

def callPath (place : Rule.Place) (i : Nat) : String :=
  place.text ++ ".transforms" ++ Rule.Step.indexText i

/-- What is wrong with the calls of a node. -/
def transformProblems (visit : Rule.Visit) : List Diagnostic :=
  match visit.node with
  | .field f =>
    f.transforms.zipIdx.flatMap fun (call, i) =>
      (callProblems visit.splitDepth call).map (·.diagnostic (callPath visit.place i))
  | _ => []

end Remap.Check
