import Remap.Plan.Compile
import Remap.Proofs.Check.Resolved
import Remap.Proofs.Fragment.Bundle

/-!
# Compiling

The main statement is that bundling and the checks find all that stands in the way of a plan
(`compile_error_or_ok`): what they let through is lowered, node by node. So the plan of a document
is what the expansion of its root comes down to (`compile_eq_ok_iff_expands`).

Bundling a document without problems changes nothing but its form (`bundle_preserves`): the bundle
holds the expansion of the document, stays as it is when it is bundled once more, and is compiled as
the document is.
-/

namespace Remap.Plan

theorem hasErrors_findings {bundle : Fragment.Bundle} :
    Diagnostic.hasErrors (findings bundle) = false ↔
      Diagnostic.hasErrors bundle.problems = false ∧ Check.resolved bundle.document = [] := by
  simp only [Diagnostic.hasErrors, findings, List.any_append, Bool.or_eq_false_iff]
  refine and_congr_right fun _ => ⟨fun h => ?_, fun h => by rw [h]; rfl⟩
  refine List.eq_nil_iff_forall_not_mem.mpr fun d hd => ?_
  exact List.any_eq_false.mp h d hd (Check.isError_of_mem_resolved hd)

/-- Where a bundle passes, its document has a plan. -/
theorem exists_ofDocument {source : Fragment.Source} {document : Rule.Document}
    (h : Diagnostic.hasErrors (findings (Fragment.bundle source document)) = false) :
    ∃ plan, ofDocument (Fragment.bundle source document).document = .ok plan := by
  obtain ⟨hproblems, hresolved⟩ := hasErrors_findings.mp h
  obtain ⟨p, hp⟩ := Check.exists_lowers_of_resolved hresolved
    (Fragment.bundle_references_eq_nil (Fragment.hasErrors_bundle.mp hproblems))
  exact ⟨_, ofDocument_eq_ok_iff.mpr ⟨p, hp, rfl⟩⟩

theorem nodeCount_of_ofDocument {document : Rule.Document} {plan : Plan}
    (h : ofDocument document = .ok plan) :
    plan.nodeCount = (document.root.visits .root).length := by
  obtain ⟨p, hp, rfl⟩ := ofDocument_eq_ok_iff.mp h
  rw [Rule.Node.length_visits]
  exact hp.size_eq

theorem compile_eq_ok_iff {source : Fragment.Source} {document : Rule.Document} {plan : Plan} :
    compile source document = .ok plan ↔
      Diagnostic.hasErrors (findings (Fragment.bundle source document)) = false ∧
        ofDocument (Fragment.bundle source document).document = .ok plan := by
  rw [compile]
  split
  · next h => exact iff_of_false (fun heq => nomatch heq) fun hnone => by simp [hnone] at h
  · next h => exact ⟨fun hplan => ⟨Bool.eq_false_iff.mpr h, hplan⟩, fun hplan => hplan.2⟩

/-- A document has the plan that the expansion of its root comes down to, if the document is
well-formed and the expansion passes the checks, and no other. -/
theorem compile_eq_ok_iff_expands {source : Fragment.Source} {document : Rule.Document}
    {plan : Plan} :
    compile source document = .ok plan ↔
      Fragment.WellFormed source document ∧ ∃ root p,
        Fragment.Expands (Fragment.Defines source document) document.root root ∧
        Check.resolved { document with root, fragments := [], includes := [] } = [] ∧
        Lowers root p ∧
        plan = ⟨document.schemaVersion, document.inputFormat, document.outputFormat, p⟩ := by
  rw [compile_eq_ok_iff, hasErrors_findings, Fragment.hasErrors_bundle, ofDocument_eq_ok_iff,
    Fragment.bundle_problems_eq_nil, ← Fragment.wellFormed_iff, and_assoc]
  refine and_congr_right fun hwell => ?_
  constructor
  · rintro ⟨hresolved, p, hp, rfl⟩
    exact ⟨_, p, hwell.expands_iff.mpr rfl, hresolved, hp, rfl⟩
  · rintro ⟨root, p, hroot, hresolved, hp, rfl⟩
    cases hwell.expands_iff.mp hroot
    exact ⟨hresolved, p, hp, rfl⟩

/-- A document is compiled to the plan of its bundle, with a node for each visit to the bundle, if
bundling and the checks find no error, and otherwise to just what they find. -/
theorem compile_error_or_ok (source : Fragment.Source) (document : Rule.Document) :
    let bundle := Fragment.bundle source document
    let found := findings bundle
    (Diagnostic.hasErrors found = true ∧ found ≠ [] ∧ compile source document = .error found) ∨
    (Diagnostic.hasErrors found = false ∧ ∃ plan, ofDocument bundle.document = .ok plan ∧
      compile source document = .ok plan ∧
      plan.nodeCount = (bundle.document.root.visits .root).length) := by
  intro bundle found
  cases hfound : Diagnostic.hasErrors found with
  | true =>
    refine .inl ⟨rfl, fun hnil => ?_, if_pos hfound⟩
    rw [hnil] at hfound
    nomatch hfound
  | false =>
    obtain ⟨plan, hplan⟩ := exists_ofDocument hfound
    exact .inr ⟨rfl, plan, hplan, compile_eq_ok_iff.mpr ⟨hfound, hplan⟩,
      nodeCount_of_ofDocument hplan⟩

end Remap.Plan

/-! ## Bundles -/

namespace Remap.Rule.Node

/-- A tree without references is inlined to itself. -/
theorem inline_of_references_eq_nil {n : Node} (h : n.references = []) (fragments : Entries Node) :
    n.inline fragments = n := by
  rw [references_eq_nil] at h
  have all {ns : List Node}
      (ih : ∀ n ∈ ns, (∀ name, fragment name ∉ n.nodes) → n.inline fragments = n)
      (h : ∀ name, fragment name ∉ allNodes ns) : inlineAll fragments ns = ns := by
    induction ns with
    | nil => rfl
    | cons n ns ihns =>
      have hfirst : n.inline fragments = n :=
        ih n List.mem_cons_self fun name hname => h name (List.mem_append_left _ hname)
      have hrest : inlineAll fragments ns = ns :=
        ihns (fun m hm => ih m (List.mem_cons_of_mem _ hm))
          fun name hname => h name (List.mem_append_right _ hname)
      rw [inlineAll, hfirst, hrest]
  induction n using induct with
  | field f => rfl
  | fragment name => exact absurd (List.mem_singleton_self _) (h name)
  | ifThen test yes ih =>
    rw [inline, ih fun name hname => h name (List.mem_cons_of_mem _ hname)]
  | ifElse test yes no ihyes ihno =>
    rw [inline, ihyes fun name hname => h name (List.mem_cons_of_mem _ (List.mem_append_left _ hname)),
      ihno fun name hname => h name (List.mem_cons_of_mem _ (List.mem_append_right _ hname))]
  | split source item target ih =>
    rw [inline, ih fun name hname => h name (List.mem_cons_of_mem _ hname)]
  | merge inputs policy target ih =>
    rw [inline, all ih fun name hname => h name (List.mem_cons_of_mem _ hname)]
  | sequence steps ih =>
    rw [inline, all ih fun name hname => h name (List.mem_cons_of_mem _ hname)]

end Remap.Rule.Node

namespace Remap.Fragment

/-- A document that includes nothing and has no fragments has nothing to gather. -/
theorem collect_of_closed (source : Source) {document : Rule.Document}
    (hfragments : document.fragments = []) (hincludes : document.includes = []) :
    collect source document = ⟨[], [], []⟩ := by
  have h := collect_gathers source document
  have hwork : topIncludes document = [] := by rw [topIncludes, hincludes]; rfl
  rw [hwork, hfragments] at h
  generalize collect source document = gathered at h
  cases h
  rfl

/-- A document that stands alone is its own bundle. -/
theorem bundle_of_closed (source : Source) {document : Rule.Document}
    (hfragments : document.fragments = []) (hincludes : document.includes = [])
    (hreferences : document.root.references = []) : bundle source document = ⟨document, []⟩ := by
  have hcheck : checkReferences [] document.root = [] := by
    rw [checkReferences_eq_nil_iff, hreferences]
    exact ⟨fun name hname => absurd hname List.not_mem_nil,
      fun entry hentry => absurd hentry List.not_mem_nil⟩
  have horder : (order []).problems = [] := by
    rw [order, Entries.keys, List.map_nil, follow]
    rfl
  have hsame : { document with fragments := [], includes := [] } = document := by
    rw [← hfragments, ← hincludes]
  simp only [bundle, collect_of_closed source hfragments hincludes, hcheck, horder,
    Rule.Node.inline_of_references_eq_nil hreferences, List.append_nil, hsame]

end Remap.Fragment

namespace Remap.Plan

open Fragment (Expands)

/-- Where nothing is wrong with a bundle, its root is the one expansion of the root of its document
and holds no reference. The bundle is its own bundle, and it is compiled as its document is,
whatever libraries there are. -/
theorem bundle_preserves {source : Fragment.Source} {document : Rule.Document}
    (h : (Fragment.bundle source document).problems = []) :
    let bundled := (Fragment.bundle source document).document
    let table := (Fragment.collect source document).table
    (∀ name, .fragment name ∉ bundled.root.nodes) ∧
    (∀ root, Expands table.Defines document.root root ↔ root = bundled.root) ∧
    ∀ other, Fragment.bundle other bundled = ⟨bundled, []⟩ ∧
      compile source document = compile other bundled := by
  intro bundled table
  have hexpands : Expands table.Defines document.root bundled.root :=
    Fragment.expands_bundle h
  have hreferences : bundled.root.references = [] := hexpands.references_eq_nil
  refine ⟨Rule.Node.references_eq_nil.mp hreferences, fun root => ?_, fun other => ?_⟩
  · constructor
    · exact fun hroot => hroot.unique hexpands fun _ _ _ => Fragment.Table.Defines.unique
    · rintro rfl
      exact hexpands
  · have hagain : Fragment.bundle other bundled = ⟨bundled, []⟩ :=
      Fragment.bundle_of_closed other rfl rfl hreferences
    have hfindings : findings (Fragment.bundle source document) =
        findings (Fragment.bundle other bundled) := by
      rw [hagain, findings, findings, h]
    refine ⟨hagain, ?_⟩
    rw [compile, compile, hfindings, hagain]

/-- A document whose fragments refer to each other. -/
def pairs : Rule.Document :=
  ⟨"1.2", .json, .json, [],
    [("pair", .sequence [.fragment "id", .field ⟨.path "name", [], "name", false⟩]),
      ("id", .field ⟨.path "id", [], "id", false⟩)],
    .sequence [.fragment "id", .split "rows" (.fragment "pair") "rows"]⟩

/-- In the bundle of pairs, the fragment in a fragment is replaced as well. -/
theorem bundle_preserves_pairs :
    let bundled := (Fragment.bundle .empty pairs).document
    (Fragment.bundle .empty pairs).problems = [] ∧
      bundled.root = .sequence [.field ⟨.path "id", [], "id", false⟩,
        .split "rows" (.sequence [.field ⟨.path "id", [], "id", false⟩,
          .field ⟨.path "name", [], "name", false⟩]) "rows"] ∧
      ∀ other, Fragment.bundle other bundled = ⟨bundled, []⟩ ∧
        compile .empty pairs = compile other bundled := by
  have hproblems : (Fragment.bundle .empty pairs).problems = [] := by cbv
  exact ⟨hproblems, by cbv, (bundle_preserves hproblems).2.2⟩

end Remap.Plan
