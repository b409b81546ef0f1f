import Remap.Proofs.Fragment.Expansion
import Remap.Proofs.Fragment.Gathering

/-!
# Bundling

The main statements are that nothing is reported of a bundle just if the document, its libraries and
their fragments are well-formed (`bundle_problems_eq_nil_iff`), and that a bundle with which nothing
is wrong holds the expansion of its document (`expands_bundle`), in which no references are left.
-/

namespace Remap.Fragment

open Relation
open Rule (Node)

variable {table : Table}

/-! ## References -/

theorem unknownReferences_eq_nil_iff {top : Rule.Place} {node : Node} :
    unknownReferences table top node = [] ↔ ∀ name ∈ node.references, table.has name := by
  simp only [unknownReferences, List.filterMap_eq_nil_iff, Node.mem_references]
  constructor
  · intro h name hname
    obtain ⟨visit, hvisit, hnode⟩ := Node.exists_visit_of_node_iff.mpr hname
    have hnone := h visit hvisit
    simp only [hnode] at hnone
    by_contra hhas
    rw [if_neg hhas] at hnone
    nomatch hnone
  · intro h visit hvisit
    split
    · next name hname =>
      exact if_pos (h name (Node.exists_visit_of_node_iff.mp ⟨visit, hvisit, hname⟩))
    · rfl

theorem exists_mem_unknownReferences (top : Rule.Place) {node : Node} {name : String}
    (hname : name ∈ node.references) (hnew : ¬table.has name = true) :
    ∃ path, (Problem.unknown name).diagnostic path ∈ unknownReferences table top node := by
  obtain ⟨visit, hvisit, hnode⟩ := Node.exists_visit_of_node_iff.mpr (Node.mem_references.mp hname)
  refine ⟨visit.place.text, List.mem_filterMap.mpr ⟨visit, hvisit, ?_⟩⟩
  rw [hnode]
  exact if_neg hnew

theorem isError_of_mem_unknownReferences {top : Rule.Place} {node : Node} {d : Diagnostic}
    (hd : d ∈ unknownReferences table top node) : d.isError := by
  obtain ⟨visit, -, hvisit⟩ := List.mem_filterMap.mp hd
  split at hvisit
  · split at hvisit
    · nomatch hvisit
    · cases hvisit
      rfl
  · nomatch hvisit

theorem checkReferences_eq_nil_iff {root : Node} :
    checkReferences table root = [] ↔ (∀ name ∈ root.references, table.has name) ∧
      ∀ entry ∈ table, ∀ name ∈ entry.2.node.references, table.has name := by
  rw [checkReferences, List.append_eq_nil_iff, unknownReferences_eq_nil_iff]
  refine and_congr_right fun _ => ?_
  simp only [List.flatMap_eq_nil_iff, unknownReferences_eq_nil_iff]

/-- References are known just if what they name is defined. -/
theorem checkReferences_eq_nil_iff_defines {root : Node} (hkeys : table.keys.Nodup) :
    checkReferences table root = [] ↔
      (∀ name ∈ root.references, ∃ node, table.Defines name node) ∧
      ∀ owner node, table.Defines owner node →
        ∀ name ∈ node.references, ∃ other, table.Defines name other := by
  rw [checkReferences_eq_nil_iff]
  simp only [Table.has_iff_defines]
  refine and_congr_right fun _ => ⟨fun h owner node ⟨origin, howner⟩ => ?_, fun h entry hentry => ?_⟩
  · exact h (owner, ⟨node, origin⟩) (Entries.mem_of_get? howner)
  · exact h entry.1 entry.2.node ⟨entry.2.origin, Entries.get?_of_mem hkeys hentry⟩

theorem isError_of_mem_checkReferences {root : Node} {d : Diagnostic}
    (hd : d ∈ checkReferences table root) : d.isError := by
  rcases List.mem_append.mp hd with hd | hd
  · exact isError_of_mem_unknownReferences hd
  · obtain ⟨entry, -, hentry⟩ := List.mem_flatMap.mp hd
    exact isError_of_mem_unknownReferences hentry

/-! ## Bundles -/

theorem bundle_problems_eq_nil {source : Source} {document : Rule.Document} :
    (bundle source document).problems = [] ↔ (collect source document).problems = [] ∧
      checkReferences (collect source document).table document.root = [] ∧
      (order (collect source document).table).problems = [] := by
  simp only [bundle, List.append_eq_nil_iff, and_assoc]

/-- All that is reported of a bundle is an error. -/
theorem isError_of_mem_bundle_problems {source : Source} {document : Rule.Document} {d : Diagnostic}
    (hd : d ∈ (bundle source document).problems) : d.isError := by
  rcases List.mem_append.mp hd with hd | hd
  · rcases List.mem_append.mp hd with hd | hd
    · exact isError_of_mem_collect_problems d hd
    · exact isError_of_mem_checkReferences hd
  · exact isError_of_mem_problems_follow (fun d hd => absurd hd List.not_mem_nil) d hd

theorem hasErrors_bundle {source : Source} {document : Rule.Document} :
    Diagnostic.hasErrors (bundle source document).problems = false ↔
      (bundle source document).problems = [] := by
  refine ⟨fun h => List.eq_nil_iff_forall_not_mem.mpr fun d hd => ?_, fun h => by rw [h]; rfl⟩
  exact List.any_eq_false.mp h d hd (isError_of_mem_bundle_problems hd)

/-- Where nothing is wrong, the root of a bundle is the expansion of that of its document. -/
theorem expands_bundle {source : Source} {document : Rule.Document}
    (h : (bundle source document).problems = []) :
    Expands (collect source document).table.Defines document.root
      (bundle source document).document.root := by
  obtain ⟨-, hreferences, horder⟩ := bundle_problems_eq_nil.mp h
  obtain ⟨hroot, hknown⟩ := checkReferences_eq_nil_iff.mp hreferences
  obtain ⟨hordered, hall⟩ := order_ordered horder
  exact .inline fun name hname => expands_resolve hordered.topological hknown
    (hall name (hroot name hname)) (hroot name hname)

/-- Where nothing is wrong, all references are replaced. -/
theorem bundle_references_eq_nil {source : Source} {document : Rule.Document}
    (h : (bundle source document).problems = []) :
    (bundle source document).document.root.references = [] :=
  (expands_bundle h).references_eq_nil

/-- A document is well-formed just if its fragments are gathered and put in order without a problem,
and all that is referred to is known. -/
theorem wellFormed_iff {source : Source} {document : Rule.Document} :
    WellFormed source document ↔ (collect source document).problems = [] ∧
      checkReferences (collect source document).table document.root = [] ∧
      (order (collect source document).table).problems = [] := by
  have hwell : WellFormed source document ↔ (collect source document).problems = [] ∧
      (∀ name ∈ document.root.references, ∃ node, Defines source document name node) ∧
      (∀ owner node, Defines source document owner node →
        ∀ name ∈ node.references, ∃ other, Defines source document name other) ∧
      ∀ name, ¬ TransGen (Refers (Defines source document)) name name := by
    rw [collect_problems_eq_nil_iff]
    exact ⟨fun h => ⟨⟨h.loads, h.includesAcyclic, h.definedOnce⟩, h.rootKnown, h.fragmentsKnown,
      h.referencesAcyclic⟩, fun ⟨⟨hloads, hincludes, honce⟩, hroot, hknown, hacyclic⟩ =>
      ⟨hloads, hincludes, honce, hroot, hknown, hacyclic⟩⟩
  rw [hwell]
  refine and_congr_right fun hproblems => ?_
  rw [checkReferences_eq_nil_iff_defines (tabulated_collect hproblems).2, order_problems_eq_nil_iff,
    collect_table_defines_eq hproblems, and_assoc]

/-- Nothing is wrong with a bundle just if its document is well-formed. -/
theorem bundle_problems_eq_nil_iff (source : Source) (document : Rule.Document) :
    (bundle source document).problems = [] ↔ WellFormed source document :=
  bundle_problems_eq_nil.trans wellFormed_iff.symm

namespace WellFormed

variable {source : Source} {document : Rule.Document} (h : WellFormed source document)
include h

theorem problems_eq_nil : (bundle source document).problems = [] :=
  bundle_problems_eq_nil.mpr (wellFormed_iff.mp h)

theorem table_defines_eq : (collect source document).table.Defines = Defines source document :=
  collect_table_defines_eq (wellFormed_iff.mp h).1

theorem defines_unique {name : String} {a b : Node} (ha : Defines source document name a)
    (hb : Defines source document name b) : a = b := by
  rw [← h.table_defines_eq] at ha hb
  exact ha.unique hb

/-- The expansion of a well-formed document is the root of its bundle, and no other. -/
theorem expands_iff {root : Node} : Expands (Defines source document) document.root root ↔
    root = (bundle source document).document.root := by
  have hexpands := expands_bundle h.problems_eq_nil
  rw [h.table_defines_eq] at hexpands
  constructor
  · exact fun hroot => hroot.unique hexpands fun _ _ _ => h.defines_unique
  · rintro rfl
    exact hexpands

end WellFormed

end Remap.Fragment
