import Remap.Fragment.Bundle
import Remap.Proofs.Fragment.Gathering
import Remap.Proofs.Rule.Constants

/-!
# The constants of bundles

A bundle has the constants of its document and of fragments. Those of libraries are read from texts
as those of documents are, so they are finite too, whatever else is wrong with the libraries.
-/

namespace Remap

open Rule (Node)
open Value (AllFinite)

namespace Rule.Node

/-- Replacing references by trees with finite constants keeps constants finite. -/
theorem allFinite_inline {fragments : Entries Node}
    (hfragments : ∀ e ∈ fragments, AllFinite e.2.values) {n : Node} (h : AllFinite n.values) :
    AllFinite (n.inline fragments).values := by
  simp only [allFinite_values_iff] at h hfragments ⊢
  have all {ns : List Node}
      (ih : ∀ n ∈ ns, (∀ m ∈ n.nodes, AllFinite m.ownValues) →
        ∀ m ∈ (n.inline fragments).nodes, AllFinite m.ownValues)
      (h : ∀ m ∈ allNodes ns, AllFinite m.ownValues) :
      ∀ m ∈ allNodes (inlineAll fragments ns), AllFinite m.ownValues := by
    induction ns with
    | nil => exact List.forall_mem_nil _
    | cons n ns ihns =>
      obtain ⟨hn, hns⟩ := List.forall_mem_append.mp h
      exact List.forall_mem_append.mpr ⟨ih n List.mem_cons_self hn,
        ihns (fun m hm => ih m (List.mem_cons_of_mem _ hm)) hns⟩
  induction n using induct with
  | field f => exact h
  | fragment name =>
    rw [inline]
    cases hget : fragments.get? name with
    | none => exact h
    | some m => exact hfragments _ (Entries.mem_of_get? hget)
  | ifThen test yes ih =>
    obtain ⟨htop, hyes⟩ := List.forall_mem_cons.mp h
    exact List.forall_mem_cons.mpr ⟨htop, ih hyes⟩
  | ifElse test yes no ihyes ihno =>
    obtain ⟨htop, hbelow⟩ := List.forall_mem_cons.mp h
    obtain ⟨hyes, hno⟩ := List.forall_mem_append.mp hbelow
    exact List.forall_mem_cons.mpr ⟨htop, List.forall_mem_append.mpr ⟨ihyes hyes, ihno hno⟩⟩
  | merge inputs policy target ih =>
    obtain ⟨htop, hbelow⟩ := List.forall_mem_cons.mp h
    exact List.forall_mem_cons.mpr ⟨htop, all ih hbelow⟩
  | split source item target ih =>
    obtain ⟨htop, hitem⟩ := List.forall_mem_cons.mp h
    exact List.forall_mem_cons.mpr ⟨htop, ih hitem⟩
  | sequence steps ih =>
    obtain ⟨htop, hbelow⟩ := List.forall_mem_cons.mp h
    exact List.forall_mem_cons.mpr ⟨htop, all ih hbelow⟩

end Rule.Node

namespace Fragment

variable {source : Source} {g g' : Gathered}

/-- Whether the fragments of a table have finite constants. -/
def Table.Finite (table : Table) : Prop := ∀ e ∈ table, AllFinite e.2.node.values

theorem Gathered.finite_defineAll {owner : String} {fragments : Entries Node}
    (hg : g.table.Finite) (h : ∀ e ∈ fragments, AllFinite e.2.values) :
    (g.defineAll owner fragments).table.Finite := by
  induction fragments generalizing g with
  | nil => exact hg
  | cons e rest ih =>
    obtain ⟨name, node⟩ := e
    obtain ⟨hnode, hrest⟩ := List.forall_mem_cons.mp h
    refine ih (g := g.define owner name node) ?_ hrest
    by_cases hmem : name ∈ g.table.keys
    · obtain ⟨d, -, heq⟩ := define_of_mem owner node hmem
      rw [heq]
      exact hg
    · rw [define_of_notMem hmem]
      exact List.forall_mem_append.mpr ⟨hg, List.forall_mem_singleton.mpr hnode⟩

theorem Gathers.finite {work : List Pending} (h : Gathers source g work g')
    (hg : g.table.Finite) : g'.table.Finite := by
  induction h with
  | done => exact hg
  | pass hpass _ ih =>
    refine ih ?_
    cases hpass <;> exact hg
  | @load g inner g' p rest library _ _ hloads _ _ ihincludes ihrest =>
    obtain ⟨text, -, hparse⟩ := hloads
    exact ihrest (ihincludes
      (Gathered.finite_defineAll (g := g.ask p.name) hg (Rule.Library.allFinite_of_parse hparse)))

variable {document : Rule.Document}

theorem finite_collect (source : Source) (h : AllFinite document.values) :
    (collect source document).table.Finite :=
  (gathers ..).finite (Gathered.finite_defineAll nofun (Rule.allFinite_document_iff.mp h).2)

theorem allFinite_resolve {table : Table} (h : table.Finite) (names : List String) :
    ∀ e ∈ resolve table names, AllFinite e.2.values := by
  unfold resolve
  refine List.foldlRecOn names _ (motive := fun resolved : Entries Node =>
    ∀ e ∈ resolved, AllFinite e.2.values) nofun fun resolved hresolved name _ => ?_
  split
  · next definition hget =>
    intro e he
    rcases Entries.mem_put he with rfl | he
    · exact Node.allFinite_inline hresolved (h _ (Entries.mem_of_get? hget))
    · exact hresolved e he
  · exact hresolved

/-- A bundle of a document with finite constants has finite constants. -/
theorem allFinite_bundle (source : Source) (h : AllFinite document.values) :
    AllFinite (bundle source document).document.values :=
  Rule.allFinite_document_iff.mpr
    ⟨Node.allFinite_inline (allFinite_resolve (finite_collect source h) _)
      (Rule.allFinite_document_iff.mp h).1, nofun⟩

end Fragment

end Remap
