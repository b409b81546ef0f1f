import Remap.Lint
import Remap.Proofs.Plan.Compile
import Remap.Proofs.Results
import Remap.Proofs.Rule.Reading
import Remap.Proofs.Rule.Visits
import Remap.Proofs.Run.Failures

/-!
# Warnings and errors

A node is warned of for one of three reasons (`nodeWarnings_cases`). Where a document has a plan,
all that the linter reports besides unused fragments are such warnings of the nodes of its bundle
(`exists_visit_of_mem_document`). An execution at the place of a node is of what that node came down
to (`Follows.lowers_of_mem_visits`), so a warning can tell of all the executions there.

The linter puts its warnings between the findings of the checks. What it reports besides those is
never an error, and sorting the two together leaves the findings in their order
(`Check.filter_inOrder`). So its errors are just what stands in the way of a plan (`errors_text`).
-/

namespace Remap

/-- The step to the branch that a condition takes with an answer. -/
def Rule.Step.ofAnswer (answer : Bool) : Rule.Step := if answer then .yes else .no

/-! ## Warnings of nodes -/

namespace Lint

variable {source : Fragment.Source} {document : Rule.Document} {d : Diagnostic}

theorem code_of_mem_unusedFragments (hd : d ∈ unusedFragments source document) :
    d.code = .unusedFragment := by
  rw [unusedFragments] at hd
  split at hd
  · cases hd
  · obtain ⟨name, -, rfl⟩ := List.mem_map.mp hd
    rfl

/-- Where a document has a plan, what is reported of it is that a fragment is unused, or a warning of
a node of its bundle. -/
theorem mem_document_iff {plan : Plan} (hplan : Plan.compile source document = .ok plan) :
    d ∈ Lint.document source document ↔ d ∈ unusedFragments source document ∨
      ∃ visit ∈ (Fragment.bundle source document).document.root.visits .root,
        d ∈ nodeWarnings visit := by
  obtain ⟨hfound, -⟩ := Plan.compile_eq_ok_iff.mp hplan
  obtain ⟨hproblems, hresolved⟩ := Plan.hasErrors_findings.mp hfound
  have hfindings : Check.findings (Fragment.bundle source document).document = [] :=
    List.map_eq_nil_iff.mp hresolved
  simp only [Lint.document, Fragment.hasErrors_bundle.mp hproblems, hfindings, List.nil_append,
    List.mem_append]
  refine or_congr_right ?_
  constructor
  · intro hd
    obtain ⟨finding, hfinding, rfl⟩ := List.mem_map.mp hd
    obtain ⟨visit, hvisit, hwarning⟩ := List.mem_flatMap.mp (List.mem_mergeSort.mp hfinding)
    obtain ⟨_, hd', rfl⟩ := List.mem_map.mp hwarning
    exact ⟨visit, hvisit, hd'⟩
  · rintro ⟨visit, hvisit, hd⟩
    refine List.mem_map.mpr ⟨(visit.index, d), List.mem_mergeSort.mpr ?_, rfl⟩
    exact List.mem_flatMap.mpr ⟨visit, hvisit, List.mem_map.mpr ⟨d, hd, rfl⟩⟩

/-- Unless it is that a fragment is unused, it is a warning of a node. -/
theorem exists_visit_of_mem_document {plan : Plan}
    (hplan : Plan.compile source document = .ok plan) (hd : d ∈ Lint.document source document)
    (hcode : d.code ≠ .unusedFragment) :
    ∃ visit ∈ (Fragment.bundle source document).document.root.visits .root,
      d ∈ nodeWarnings visit :=
  ((mem_document_iff hplan).mp hd).resolve_left fun hunused =>
    hcode (code_of_mem_unusedFragments hunused)

theorem code_of_mem_mismatches {i n : Nat} {known : Option Kind} {maker : Option Transform}
    {w : Warning} {calls : List Rule.Call} (h : (i, w) ∈ mismatches n known maker calls) :
    w.code = .transformKindMismatch := by
  induction calls generalizing n known maker with
  | nil => cases h
  | cons call calls ih =>
    rw [mismatches] at h
    split at h
    · exact ih h
    · rcases List.mem_append.mp h with h | h
      · split at h
        · split at h
          · cases h
          · cases List.mem_singleton.mp h
            rfl
        · cases h
      · exact ih h

/-- What a node is warned of: a branch that the known truth of its condition rules out, having no
effect, or a call that is given a kind it does not accept. -/
theorem nodeWarnings_cases {visit : Rule.Visit} (hd : d ∈ nodeWarnings visit) :
    (d.code = .unreachableBranch ∧ ∃ test yes no truth, visit.node = .condition test yes no ∧
      test.constant? = some truth ∧ d.path = (visit.place.down (.ofAnswer !truth)).text) ∨
    (d.code = .noOpNode ∧ d.path = visit.place.text) ∨
    (d.code = .transformKindMismatch ∧ ∃ f i w, visit.node = .field f ∧
      (i, w) ∈ mismatches 0 (startKind? f.source) none f.transforms ∧
      d.path = Check.callPath visit.place i) := by
  simp only [nodeWarnings] at hd
  split at hd
  · next test yes no hnode =>
    refine .inl ?_
    split at hd
    · next htruth =>
      rw [List.mem_singleton.mp hd]
      exact ⟨rfl, test, yes, _, true, hnode, htruth, rfl⟩
    · next htruth =>
      rw [List.mem_singleton.mp hd]
      exact ⟨rfl, test, yes, _, false, hnode, htruth, rfl⟩
    · cases hd
  · rw [List.mem_singleton.mp hd]
    exact .inr (.inl ⟨rfl, rfl⟩)
  · rw [List.mem_singleton.mp hd]
    exact .inr (.inl ⟨rfl, rfl⟩)
  · next f hnode =>
    obtain ⟨⟨i, w⟩, hw, rfl⟩ := List.mem_map.mp hd
    exact .inr (.inr ⟨code_of_mem_mismatches hw, f, i, w, hnode, hw, rfl⟩)
  · cases hd

end Lint

/-! ## Executions at the places of nodes -/

namespace Run.Execution

variable {root : Rule.Node} {e : Execution} {visit : Rule.Visit}

/-- An execution at the place of a node is of what the node came down to. -/
theorem Follows.lowers_of_mem_visits (h : Follows root e) (hvisit : visit ∈ root.visits .root)
    (hplace : e.place.static = visit.place) : Plan.Lowers visit.node e.node := by
  obtain ⟨other, hother, hat, -, hlowers⟩ := h.exists_visit
  obtain ⟨-, -, hfind⟩ := Rule.Node.place_of_mem_visits hvisit
  obtain ⟨-, -, hfound⟩ := Rule.Node.place_of_mem_visits hother
  rw [hat, hplace, hfind] at hfound
  rw [Option.some.inj hfound]
  exact hlowers

/-- The text of an execution's place in the tree tells how it lies to a node. -/
theorem static_eq_of_text {plan : Plan} {input : Value} (he : e ∈ (top plan input).executions)
    (hvisit : visit ∈ root.visits .root) {steps : List Rule.Step}
    (htext : e.place.static.text = (visit.place.below steps).text) :
    e.place.static = visit.place.below steps := by
  obtain ⟨htree, -, -⟩ := Rule.Node.place_of_mem_visits hvisit
  exact Rule.Place.text_inj ((tree_of_mem_executions_top he).trans htree.symm) htext

end Run.Execution

/-! ## Findings in order -/

/-- Findings that are in order stay so among others. -/
theorem Check.filter_inOrder {found others : List Finding} {p : Finding → Bool}
    (hsorted : found.Pairwise fun a b => a.1 ≤ b.1) (hfound : ∀ f ∈ found, p f = true)
    (hothers : ∀ f ∈ others, p f = false) : (inOrder (found ++ others)).filter p = found := by
  have hleft : found.filter p = found := List.filter_eq_self.mpr hfound
  have hright : others.filter p = [] := List.filter_eq_nil_iff.mpr fun f hf => by
    simp [hothers f hf]
  have hsublist : found.Sublist (inOrder (found ++ others)) := by
    refine List.sublist_mergeSort ?_ ?_ (hsorted.imp fun h => decide_eq_true h)
      (List.sublist_append_left found others)
    · intro a b c hab hbc
      exact decide_eq_true ((of_decide_eq_true hab).trans (of_decide_eq_true hbc))
    · intro a b
      simpa using Nat.le_total a.1 b.1
  have hkept : found.Sublist ((inOrder (found ++ others)).filter p) := by
    have := hsublist.filter p
    rwa [hleft] at this
  have hperm : ((inOrder (found ++ others)).filter p).Perm found := by
    have := (List.mergeSort_perm (found ++ others) fun a b => decide (a.1 ≤ b.1)).filter p
    rwa [List.filter_append, hleft, hright, List.append_nil] at this
  exact (hkept.eq_of_length hperm.length_eq.symm).symm

theorem Check.pairwise_findings (document : Rule.Document) :
    (findings document).Pairwise fun a b => a.1 ≤ b.1 := by
  refine (List.pairwise_mergeSort ?_ ?_ (unordered document)).imp fun h => of_decide_eq_true h
  · intro a b c hab hbc
    exact decide_eq_true ((of_decide_eq_true hab).trans (of_decide_eq_true hbc))
  · intro a b
    simpa using Nat.le_total a.1 b.1

namespace Lint

variable {source : Fragment.Source} {d : Diagnostic}

/-! ## Warnings are no errors -/

theorem isError_of_mem_unusedFragments {document : Rule.Document}
    (hd : d ∈ unusedFragments source document) : d.isError = false := by
  rw [Diagnostic.isError, Diagnostic.severity, code_of_mem_unusedFragments hd]
  rfl

theorem isError_of_mem_nodeWarnings {visit : Rule.Visit} (hd : d ∈ nodeWarnings visit) :
    d.isError = false := by
  rw [Diagnostic.isError, Diagnostic.severity]
  rcases nodeWarnings_cases hd with ⟨hcode, -⟩ | ⟨hcode, -⟩ | ⟨hcode, -⟩ <;> (rw [hcode]; rfl)

theorem isError_of_mem_warnings {root : Rule.Node} {finding : Check.Finding}
    (h : finding ∈ warnings root) : finding.2.isError = false := by
  obtain ⟨visit, -, h⟩ := List.mem_flatMap.mp h
  obtain ⟨d, hd, rfl⟩ := List.mem_map.mp h
  exact isError_of_mem_nodeWarnings hd

/-! ## The errors -/

/-- The errors of a document are what bundling and the checks find. -/
theorem errors_document (source : Fragment.Source) (document : Rule.Document) :
    (Lint.document source document).filter Diagnostic.isError =
      Plan.findings (Fragment.bundle source document) := by
  have hbundle : (Fragment.bundle source document).problems.filter Diagnostic.isError =
      (Fragment.bundle source document).problems :=
    List.filter_eq_self.mpr fun d hd => Fragment.isError_of_mem_bundle_problems hd
  have hunused : (unusedFragments source document).filter Diagnostic.isError = [] := by
    refine List.filter_eq_nil_iff.mpr fun d hd => ?_
    rw [isError_of_mem_unusedFragments hd]
    exact Bool.false_ne_true
  have hfound : ∀ f ∈ Check.findings (Fragment.bundle source document).document,
      f.2.isError = true :=
    fun f hf => Check.isError_of_mem_resolved (List.mem_map.mpr ⟨f, hf, rfl⟩)
  have hwarnings : ∀ f ∈ warnings (Fragment.bundle source document).document.root,
      f.2.isError = false :=
    fun _ hf => isError_of_mem_warnings hf
  have hnodes := Check.filter_inOrder (p := Diagnostic.isError ∘ (·.2))
    (Check.pairwise_findings _) hfound hwarnings
  simp only [Lint.document, List.filter_append, hbundle, hunused, List.append_nil, List.filter_map]
  rw [hnodes, Plan.findings, Check.resolved]

theorem hasErrors_filter (ds : List Diagnostic) :
    Diagnostic.hasErrors (ds.filter Diagnostic.isError) = Diagnostic.hasErrors ds := by
  simp [Diagnostic.hasErrors, List.any_filter]

/-- **The errors** that the linter reports of a text are, in their order, just what stands in the
way of a plan, and so there are none exactly if the text has a plan. -/
theorem errors_text (source : Fragment.Source) (text : String) :
    (Lint.text source text).filter Diagnostic.isError = (Plan.validate source text).errors ∧
      (Diagnostic.hasErrors (Lint.text source text) = false ↔
        ∃ plan, Plan.compileText source text = .ok plan) := by
  rw [← hasErrors_filter]
  cases hparse : Rule.Document.parse text with
  | error errors =>
    have hissues : Lint.text source text = errors := by rw [Lint.text, hparse]
    have hcompile : Plan.compileText source text = .error errors := by
      rw [Plan.compileText, hparse]
      rfl
    have hfilter : errors.filter Diagnostic.isError = errors :=
      List.filter_eq_self.mpr (Rule.Document.isError_of_mem_faults hparse)
    rw [hissues, hfilter, Plan.validate, hcompile]
    refine ⟨rfl, iff_of_false (fun hnone => ?_) nofun⟩
    obtain ⟨d, hd⟩ := List.exists_mem_of_ne_nil _ (Rule.Document.faults_ne_nil hparse)
    exact List.any_eq_false.mp hnone d hd (Rule.Document.isError_of_mem_faults hparse d hd)
  | ok document =>
    have hissues : Lint.text source text = Lint.document source document := by
      rw [Lint.text, hparse]
    have hcompile : Plan.compileText source text = Plan.compile source document := by
      rw [Plan.compileText, hparse]
      rfl
    rw [hissues, errors_document, Plan.validate, hcompile]
    cases hfound : Diagnostic.hasErrors (Plan.findings (Fragment.bundle source document)) with
    | true =>
      have herror : Plan.compile source document =
          .error (Plan.findings (Fragment.bundle source document)) := if_pos hfound
      rw [herror]
      exact ⟨rfl, iff_of_false Bool.noConfusion nofun⟩
    | false =>
      obtain ⟨plan, hplan⟩ := Plan.exists_ofDocument hfound
      obtain ⟨hproblems, hresolved⟩ := Plan.hasErrors_findings.mp hfound
      rw [Plan.compile_eq_ok_iff.mpr ⟨hfound, hplan⟩, Plan.findings,
        Fragment.hasErrors_bundle.mp hproblems, hresolved]
      exact ⟨rfl, iff_of_true rfl ⟨plan, rfl⟩⟩

end Lint

end Remap
