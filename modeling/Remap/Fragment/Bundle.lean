import Remap.Fragment.Order

/-!
# Bundling

A bundle is a document that stands alone: every reference that can be resolved is replaced by a copy
of its fragment, and nothing is included any more. References to unknown fragments and to members of
cycles stay.
-/

namespace Remap.Rule.Node

mutual

/-- A tree in which references are replaced by the fragments of a table. -/
def inline (fragments : Entries Node) : Node → Node
  | field f => field f
  | fragment name => (fragments.get? name).getD (fragment name)
  | condition test yes none => condition test (inline fragments yes) none
  | condition test yes (some no) =>
    condition test (inline fragments yes) (some (inline fragments no))
  | merge inputs policy target => merge (inlineAll fragments inputs) policy target
  | split source item target => split source (inline fragments item) target
  | sequence steps => sequence (inlineAll fragments steps)

/-- Trees in which references are replaced by the fragments of a table. -/
def inlineAll (fragments : Entries Node) : List Node → List Node
  | [] => []
  | n :: ns => inline fragments n :: inlineAll fragments ns

end

end Remap.Rule.Node

namespace Remap.Fragment

/-- The references in a tree that the table does not have. -/
def unknownReferences (table : Table) (top : Rule.Place) (node : Rule.Node) : List Diagnostic :=
  (node.visits top).filterMap fun visit =>
    match visit.node with
    | .fragment name =>
      if table.has name then none
      else some ((Problem.unknown name).diagnostic visit.place.text)
    | _ => none

/-- The references in a document and in all fragments that the table does not have. -/
def checkReferences (table : Table) (root : Rule.Node) : List Diagnostic :=
  unknownReferences table .root root ++
    table.flatMap fun (_, definition) => unknownReferences table definition.origin definition.node

/-- The fragments in order, each with its own references replaced by the earlier ones. -/
def resolve (table : Table) (order : List String) : Entries Rule.Node :=
  order.foldl
    (fun resolved name =>
      match table.get? name with
      | some definition => resolved.put name (definition.node.inline resolved)
      | none => resolved)
    []

/-- A document that stands alone, and what was wrong on the way. -/
structure Bundle where
  document : Rule.Document
  problems : List Diagnostic

def bundle (source : Source) (document : Rule.Document) : Bundle :=
  let gathered := collect source document
  let followed := order gathered.table
  let resolved := resolve gathered.table followed.order
  { document :=
      { document with root := document.root.inline resolved, fragments := [], includes := [] }
    problems :=
      gathered.problems ++ checkReferences gathered.table document.root ++ followed.problems }

def bundleText (source : Source) (text : String) : Except (List Diagnostic) Bundle :=
  (Rule.Document.parse text).map (bundle source)

end Remap.Fragment
