import Remap.Check.Resolved
import Remap.Fragment.Bundle

/-!
# Linting

The linter reports all that is wrong with rules, and warns of rules that are right but can hardly be
meant: branches that never run, nodes without effect, fragments that nothing refers to, and
transforms that are given a kind of value they do not accept.
-/

namespace Remap.Lint

/-- What may not be meant. -/
inductive Warning where
  | elseNeverRuns
  | thenNeverRuns
  | emptySequence
  | singleInput
  | unusedFragment (name : String)
  /-- A transform is given a kind made by another one or, without one, by the constant. -/
  | kindMismatch (t : Transform) (given : Kind) (maker : Option Transform)
deriving DecidableEq, Repr

namespace Warning

def code : Warning → Code
  | elseNeverRuns | thenNeverRuns => .unreachableBranch
  | emptySequence | singleInput => .noOpNode
  | unusedFragment _ => .unusedFragment
  | kindMismatch .. => .transformKindMismatch

def message : Warning → String
  | elseNeverRuns => "condition is always true; 'else' never runs"
  | thenNeverRuns => "condition is always false; 'then' never runs"
  | emptySequence => "empty sequence does nothing"
  | singleInput => "merge of a single input; use the input directly"
  | unusedFragment name => "fragment '" ++ name ++ "' is never referenced"
  | kindMismatch t given maker =>
    let made := match maker with
      | none => "the constant value"
      | some maker => "'" ++ maker.name ++ "'"
    "'" ++ t.name ++ "' does not accept the " ++ given.name ++ " produced by " ++ made

/-- A warning as a finding at a place. -/
def diagnostic (w : Warning) (path : String) : Diagnostic := ⟨w.code, path, w.message⟩

end Warning

/-! ## Fragments -/

/-- The fragments that references lead to, directly or through other fragments. -/
def reach (table : Fragment.Table) (work seen : List String) : List String :=
  match work with
  | [] => seen
  | name :: rest =>
    match _hfound : table.get? name with
    | none => reach table rest seen
    | some definition =>
      if _hnew : seen.contains name then reach table rest seen
      else reach table (definition.node.references ++ rest) (name :: seen)
termination_by (Fragment.offTrail table seen, work.length)
decreasing_by
  · exact .right _ (by simp)
  · exact .right _ (by simp)
  · exact .left _ _
      (Fragment.offTrail_lt (Entries.mem_keys_of_get? _hfound) (by simpa using _hnew))

/-- The fragments of a document itself that nothing leads to from its root. Those of libraries are
offered to others and are not reported. -/
def unusedFragments (source : Fragment.Source) (document : Rule.Document) : List Diagnostic :=
  if document.fragments.isEmpty then []
  else
    let reached := reach (Fragment.collect source document).table document.root.references []
    (document.fragments.keys.filter fun name => !reached.contains name).map fun name =>
      (Warning.unusedFragment name).diagnostic (Rule.fragmentPlace "" name).text

/-! ## Nodes -/

/-- The kind that a call makes of a kind, as far as they are known. -/
def kindAfter (t : Transform) (args : List Value) (known : Option Kind) : Option Kind :=
  match t with
  | .default =>
    match known, args.head? with
    | some kind, some fallback => if fallback.kind = kind then some kind else none
    | _, _ => none
  | t => t.output

/-- The calls that are given a kind they do not accept, with their numbers; the first call left has
number `i`. -/
def mismatches (i : Nat) (known : Option Kind) (maker : Option Transform) :
    List Rule.Call → List (Nat × Warning)
  | [] => []
  | call :: rest =>
    match Transform.ofName? call.name with
    | none => mismatches (i + 1) none maker rest
    | some t =>
      let own := match known with
        | some kind => if t.acceptsKind kind then [] else [(i, .kindMismatch t kind maker)]
        | none => []
      own ++ mismatches (i + 1) (kindAfter t call.args known) (some t) rest

/-- The kind of value that a field starts from, where it is known. -/
def startKind? : Rule.Source → Option Kind
  | .constant v => some v.kind
  | .path _ => none

def nodeWarnings (visit : Rule.Visit) : List Diagnostic :=
  let place := visit.place
  match visit.node with
  | .condition test _ no =>
    match test.constant?, no with
    | some true, some _ => [Warning.elseNeverRuns.diagnostic (place.down .no).text]
    | some false, _ => [Warning.thenNeverRuns.diagnostic (place.down .yes).text]
    | _, _ => []
  | .sequence [] => [Warning.emptySequence.diagnostic place.text]
  | .merge [_] _ _ => [Warning.singleInput.diagnostic place.text]
  | .field f =>
    (mismatches 0 (startKind? f.source) none f.transforms).map fun (i, w) =>
      w.diagnostic (Check.callPath place i)
  | _ => []

/-- What may not be meant in a tree, node by node. -/
def warnings (root : Rule.Node) : List Check.Finding :=
  (root.visits .root).flatMap fun visit => (nodeWarnings visit).map fun d => (visit.index, d)

/-- All that the linter has to say about a document: what bundling finds, unused fragments, then the
nodes in order, and about each node first what is wrong and then what may not be meant. -/
def document (source : Fragment.Source) (document : Rule.Document) : List Diagnostic :=
  let bundle := Fragment.bundle source document
  bundle.problems ++ unusedFragments source document
    ++ (Check.inOrder (Check.findings bundle.document ++ warnings bundle.document.root)).map (·.2)

/-- All that the linter has to say about a text. -/
def text (source : Fragment.Source) (text : String) : List Diagnostic :=
  match Rule.Document.parse text with
  | .ok d => document source d
  | .error errors => errors

def report (issues : List Diagnostic) : Value :=
  .object
    [("hasErrors", .bool (Diagnostic.hasErrors issues)), ("issues", Diagnostic.reports issues)]

end Remap.Lint
