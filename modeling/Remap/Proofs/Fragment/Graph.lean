import Mathlib.Logic.Relation
import Remap.Fragment.Bundle
import Remap.Proofs.Lists

/-!
# Well-formed documents

What must hold of a document, the libraries that it includes and the fragments that they define so
that nothing is wrong with its bundle. Libraries form a graph by what they include, and fragments by
what they refer to.
-/

namespace Remap.Fragment

open Relation

/-- A name for which a source has the text of a library. -/
def Source.Loads (source : Source) (name : String) (library : Rule.Library) : Prop :=
  ∃ text, source.load name = .ok text ∧ Rule.Library.parse name text = .ok library

theorem Source.Loads.unique {source : Source} {name : String} {a b : Rule.Library}
    (ha : source.Loads name a) (hb : source.Loads name b) : a = b := by
  obtain ⟨text, hload, hparse⟩ := ha
  obtain ⟨text', hload', hparse'⟩ := hb
  rw [hload] at hload'
  cases hload'
  rw [hparse] at hparse'
  cases hparse'
  rfl

/-- One library includes another. -/
def Source.Includes (source : Source) (owner name : String) : Prop :=
  ∃ library, source.Loads owner library ∧ name ∈ library.includes

/-- The libraries that a document includes, directly or through libraries that load. -/
inductive Reachable (source : Source) (document : Rule.Document) : String → Prop where
  | own {name : String} : name ∈ document.includes → Reachable source document name
  | through {owner name : String} : Reachable source document owner →
      source.Includes owner name → Reachable source document name

theorem Reachable.of_includes_eq {source : Source} {document document' : Rule.Document}
    {name : String} (hincludes : document'.includes = document.includes)
    (h : Reachable source document name) : Reachable source document' name := by
  induction h with
  | own hmem => exact .own (hincludes ▸ hmem)
  | through _ hincluded ih => exact .through ih hincluded

/-- Where the fragment of a name is defined: as a fragment of the document, or of a library that is
reached, and at which position there. -/
inductive DefinedAt (source : Source) (document : Rule.Document) :
    Option String → Nat → String → Prop where
  | own {i : Nat} {name : String} : document.fragments.keys[i]? = some name →
      DefinedAt source document none i name
  | library {owner : String} {library : Rule.Library} {i : Nat} {name : String} :
      Reachable source document owner → source.Loads owner library →
      library.fragments.keys[i]? = some name → DefinedAt source document (some owner) i name

/-- What a name is defined as, by the document or by a library that is reached. -/
inductive Defines (source : Source) (document : Rule.Document) : String → Rule.Node → Prop where
  | own {name : String} {node : Rule.Node} : (name, node) ∈ document.fragments →
      Defines source document name node
  | library {owner : String} {library : Rule.Library} {name : String} {node : Rule.Node} :
      Reachable source document owner → source.Loads owner library →
      (name, node) ∈ library.fragments → Defines source document name node

/-- What a table has under a name. -/
def Table.Defines (table : Table) (name : String) (node : Rule.Node) : Prop :=
  ∃ origin, table.get? name = some ⟨node, origin⟩

theorem Table.has_iff_defines {table : Table} {name : String} :
    table.has name = true ↔ ∃ node, table.Defines name node := by
  rw [Entries.has, Option.isSome_iff_exists]
  exact ⟨fun ⟨⟨node, origin⟩, h⟩ => ⟨node, origin, h⟩, fun ⟨_, _, h⟩ => ⟨_, h⟩⟩

/-- One fragment refers to another, where `defines` tells what names stand for. -/
def Refers (defines : String → Rule.Node → Prop) (owner name : String) : Prop :=
  ∃ node, defines owner node ∧ name ∈ node.references ∧ ∃ other, defines name other

/-- Nothing is wrong with the libraries and fragments of a document. -/
structure WellFormed (source : Source) (document : Rule.Document) : Prop where
  /-- Every library that is reached exists and parses. -/
  loads : ∀ name, Reachable source document name → ∃ library, source.Loads name library
  /-- No library that is reached includes itself, directly or through others. -/
  includesAcyclic : ∀ name, Reachable source document name → ¬ TransGen source.Includes name name
  /-- No name is defined at two places. -/
  definedOnce : ∀ owner i owner' i' name, DefinedAt source document owner i name →
    DefinedAt source document owner' i' name → owner = owner' ∧ i = i'
  /-- Every reference in the document names a fragment that is defined. -/
  rootKnown : ∀ name ∈ document.root.references, ∃ node, Defines source document name node
  /-- Every reference in a fragment names a fragment that is defined. -/
  fragmentsKnown : ∀ owner node, Defines source document owner node →
    ∀ name ∈ node.references, ∃ other, Defines source document name other
  /-- No fragment refers to itself, directly or through others. -/
  referencesAcyclic : ∀ name, ¬ TransGen (Refers (Defines source document)) name name

/-! ## Documents with the same references -/

/-- Two documents that include the same, define the same names, and refer to the same from the
definitions of each name and from their roots. -/
structure SameReferences (document document' : Rule.Document) : Prop where
  includes : document'.includes = document.includes
  fragments : List.Forall₂ (fun e e' => e'.1 = e.1 ∧ e'.2.references = e.2.references)
    document.fragments document'.fragments
  root : document'.root.references = document.root.references

namespace SameReferences

variable {source : Source} {document document' : Rule.Document}

theorem symm (h : SameReferences document document') : SameReferences document' document := by
  refine ⟨h.includes.symm, ?_, h.root.symm⟩
  exact h.fragments.flip.imp fun _ _ he => ⟨he.1.symm, he.2.symm⟩

theorem reachable (h : SameReferences document document') {name : String}
    (hname : Reachable source document name) : Reachable source document' name :=
  hname.of_includes_eq h.includes

theorem keys_eq (h : SameReferences document document') :
    document'.fragments.keys = document.fragments.keys := by
  have hfragments := h.fragments
  generalize document.fragments = es, document'.fragments = es' at hfragments
  induction hfragments with
  | nil => rfl
  | cons he _ ih =>
    rw [Entries.keys, Entries.keys, List.map_cons, List.map_cons, he.1]
    exact congrArg _ ih

theorem definedAt (h : SameReferences document document') {owner : Option String} {i : Nat}
    {name : String} (hname : DefinedAt source document owner i name) :
    DefinedAt source document' owner i name := by
  cases hname with
  | own hi => exact .own (h.keys_eq ▸ hi)
  | library hreach hloads hi => exact .library (h.reachable hreach) hloads hi

theorem defines (h : SameReferences document document') {name : String} {node : Rule.Node}
    (hname : Defines source document name node) :
    ∃ node', Defines source document' name node' ∧ node'.references = node.references := by
  cases hname with
  | library hreach hloads hmem => exact ⟨node, .library (h.reachable hreach) hloads hmem, rfl⟩
  | own hmem =>
    obtain ⟨⟨name', node'⟩, he', hkey, hreferences⟩ := exists_of_mem_forall₂ h.fragments hmem
    cases hkey
    exact ⟨node', .own he', hreferences⟩

theorem refers (h : SameReferences document document') {owner name : String}
    (hrefers : Refers (Defines source document) owner name) :
    Refers (Defines source document') owner name := by
  obtain ⟨node, hnode, hname, other, hother⟩ := hrefers
  obtain ⟨node', hnode', hreferences⟩ := h.defines hnode
  obtain ⟨other', hother', -⟩ := h.defines hother
  exact ⟨node', hnode', hreferences ▸ hname, other', hother'⟩

/-- Whether a document is well-formed depends on nothing but what it refers to. -/
theorem wellFormed (h : SameReferences document document') (hwell : WellFormed source document) :
    WellFormed source document' := by
  have known {name : String} (hname : ∃ node, Defines source document name node) :
      ∃ node, Defines source document' name node := by
    obtain ⟨node, hnode⟩ := hname
    obtain ⟨node', hnode', -⟩ := h.defines hnode
    exact ⟨node', hnode'⟩
  refine ⟨fun name hname => hwell.loads name (h.symm.reachable hname), fun name hname =>
    hwell.includesAcyclic name (h.symm.reachable hname), fun owner i owner' i' name hi hi' =>
    hwell.definedOnce owner i owner' i' name (h.symm.definedAt hi) (h.symm.definedAt hi'),
    fun name hname => ?_, fun owner node' hnode' name hname => ?_, fun name hcycle => ?_⟩
  · exact known (hwell.rootKnown name (h.root ▸ hname))
  · obtain ⟨node, hnode, hreferences⟩ := h.symm.defines hnode'
    exact known (hwell.fragmentsKnown owner node hnode name (hreferences ▸ hname))
  · exact hwell.referencesAcyclic name (TransGen.mono (fun _ _ => h.symm.refers) _ _ hcycle)

end SameReferences

/-! ## Graphs -/

/-- What is accessible against the edges of a graph lies on no cycle. -/
theorem not_transGen_self_of_acc {α : Type} {r : α → α → Prop} {a : α}
    (h : Acc (fun y x => r x y) a) : ¬ TransGen r a a := by
  have hacc : Acc (TransGen fun y x => r x y) a := acc_transGen_iff.mpr h
  intro hself
  have hself' : TransGen (fun y x => r x y) a a := transGen_swap.mpr hself
  clear h hself
  induction hacc with
  | intro x _ ih => exact ih x hself' hself'

end Remap.Fragment
