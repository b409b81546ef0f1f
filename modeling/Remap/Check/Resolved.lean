import Remap.Check.Node
import Remap.Check.Structure

/-!
# Checking documents

Findings come in the order of the nodes that they are about. Those about one node come in the order
of the checks: paths, then calls, then structure.
-/

namespace Remap.Check

/-- A finding with the number of the visit to the node that it is about. -/
abbrev Finding := Nat × Diagnostic

/-- Findings in the order of nodes; those about one node keep their order. -/
def inOrder (findings : List Finding) : List Finding := findings.mergeSort fun a b => a.1 ≤ b.1

/-- All findings of a document without fragments, check by check. -/
def unordered (document : Rule.Document) : List Finding :=
  let visits := document.root.visits .root
  let each (check : Rule.Visit → List Diagnostic) : List Finding :=
    visits.flatMap fun visit => (check visit).map fun d => (visit.index, d)
  each (pathProblems document) ++ each transformProblems ++ visits.flatMap structureProblems

/-- All findings of a document without fragments, in the order of nodes. -/
def findings (document : Rule.Document) : List Finding := inOrder (unordered document)

/-- What is wrong with a document without fragments. -/
def resolved (document : Rule.Document) : List Diagnostic := (findings document).map (·.2)

end Remap.Check
