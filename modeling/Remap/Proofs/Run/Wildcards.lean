import Mathlib.Data.List.Permutation
import Mathlib.Data.List.TakeDrop
import Remap.Proofs.Plan.Compile
import Remap.Proofs.Run.Executions
import Remap.Proofs.Run.Paths
import Remap.Proofs.Run.Scope

/-!
# Wildcards in a run

The main statement is that a run of a compiled plan finds a split for every wildcard of every path
that it may read (`wildcards_bound`). The checks count the splits around a node in the tree, and a
scope holds the items that a run is in; both go up at the items of a split only.
-/

namespace Remap.Run

open Check (Passes)
open Plan (CallLowers ConditionLowers Lowers OriginLowers)
open Rule (Node Visit)

/-! ## The paths of a node that passes -/

/-- A predicate reads what some source of its condition denotes. -/
theorem exists_source_of_mem_paths {c : Condition} {p : Plan.Predicate} (h : ConditionLowers c p)
    {path : SourcePath} (hpath : path ∈ p.paths) :
    ∃ source ∈ c.sources, SourcePath.parse source = .ok path := by
  have single {source : String} {path' : SourcePath} (hparse : SourcePath.parse source = .ok path')
      (hpath : path ∈ [path']) : ∃ source' ∈ [source], SourcePath.parse source' = .ok path := by
    rw [List.mem_singleton.mp hpath]
    exact ⟨source, List.mem_singleton_self _, hparse⟩
  have all {cs : List Condition} {ps : List Plan.Predicate}
      (h : List.Forall₂ (fun c p => path ∈ p.paths →
        ∃ source ∈ c.sources, SourcePath.parse source = .ok path) cs ps)
      (hpath : path ∈ Plan.Predicate.listPaths ps) :
      ∃ source ∈ Condition.listSources cs, SourcePath.parse source = .ok path := by
    induction h with
    | nil => nomatch hpath
    | cons hp _ ih =>
      rcases List.mem_append.mp hpath with hpath | hpath
      · obtain ⟨source, hsource, hparse⟩ := hp hpath
        exact ⟨source, List.mem_append_left _ hsource, hparse⟩
      · obtain ⟨source, hsource, hparse⟩ := ih hpath
        exact ⟨source, List.mem_append_right _ hsource, hparse⟩
  induction c using Condition.induct generalizing p with
  | literal value => cases h; nomatch hpath
  | equals source value => cases h with | equals hparse => exact single hparse hpath
  | «exists» source => cases h with | «exists» hparse => exact single hparse hpath
  | «matches» source text => cases h with | «matches» hparse => exact single hparse hpath
  | greaterThan source value => cases h with | greaterThan hparse => exact single hparse hpath
  | lessThan source value => cases h with | lessThan hparse => exact single hparse hpath
  | not c ih => cases h with | not hp => exact ih hp hpath
  | and cs ih =>
    cases h with | and hps => exact all (forall₂_imp_of_mem hps fun c hc _ hp => ih c hc hp) hpath
  | or cs ih =>
    cases h with | or hps => exact all (forall₂_imp_of_mem hps fun c hc _ hp => ih c hc hp) hpath

theorem wildcards_le_of_sourceProblems {format : Format} {splits : Nat} {text : String}
    {path : SourcePath} (h : Check.sourceProblems format splits text = [])
    (hparse : SourcePath.parse text = .ok path) : path.wildcards ≤ splits := by
  obtain ⟨p, hp, hle⟩ := Check.exists_source_of_sourceProblems h
  rw [hparse] at hp
  cases hp
  exact hle

theorem wildcards_le_of_callProblems {splits : Nat} {call : Rule.Call} {op : Operation}
    (h : Check.callProblems splits call = []) (hop : CallLowers call op) {path : SourcePath}
    (hpath : path ∈ op.paths) : path.wildcards ≤ splits := by
  obtain ⟨other, hother, hle⟩ := Check.exists_operation_of_callProblems h
  cases hop.unique hother
  exact hle path hpath

/-- Where a node passes, what it comes down to reads no path with more wildcards than there are
splits around. -/
theorem wildcards_le_of_passes {document : Rule.Document} {visit : Visit}
    (hvisit : Passes document visit) {p : Plan.Node} (h : Lowers visit.node p) {path : SourcePath}
    (hpath : path ∈ p.paths) : path.wildcards ≤ visit.splitDepth := by
  have hpaths := hvisit.paths
  generalize hnode : visit.node = node at h
  cases h with
  | @field f g hf =>
    simp only [Check.pathProblems, hnode, List.append_eq_nil_iff, List.map_eq_nil_iff] at hpaths
    rcases List.mem_append.mp hpath with hpath | hpath
    · have hsource := hf.source
      generalize f.source = source, g.source = origin at hsource hpaths hpath
      cases hsource with
      | constant => cases hpath
      | path hparse =>
        rw [List.mem_singleton.mp hpath]
        exact wildcards_le_of_sourceProblems (List.map_eq_nil_iff.mp hpaths.1) hparse
    · obtain ⟨op, hop, hpath⟩ := List.mem_flatMap.mp hpath
      obtain ⟨i, hi⟩ := List.getElem?_of_mem hop
      obtain ⟨call, hcall, hlowers⟩ := forall₂_getElem? hf.operations hi
      exact wildcards_le_of_callProblems
        (hvisit.callProblems_eq_nil hnode (List.mem_of_getElem? hcall)) hlowers hpath
  | ifThen htest _ | ifElse htest _ _ =>
    simp only [Check.pathProblems, hnode, List.flatMap_eq_nil_iff, List.map_eq_nil_iff] at hpaths
    obtain ⟨source, hsource, hparse⟩ := exists_source_of_mem_paths htest hpath
    exact wildcards_le_of_sourceProblems (hpaths source hsource) hparse
  | merge => cases hpath
  | split hparse _ _ =>
    simp only [Check.pathProblems, hnode, List.append_eq_nil_iff, List.map_eq_nil_iff] at hpaths
    rw [List.mem_singleton.mp hpath]
    exact wildcards_le_of_sourceProblems hpaths.1 hparse
  | sequence => cases hpath

/-! ## Executions and visits -/

namespace Execution

/-- An execution is of what a node of a tree came down to that the walk meets where it stands, with
as many splits around as there are items. -/
def Follows (root : Node) (e : Execution) : Prop :=
  ∃ n, Lowers n e.node ∧
    Node.placed e.place.static e.scope.depth n ⊆ Node.placed .root 0 root

theorem Follows.of_mem_children {root : Node} {e c : Execution} (h : Follows root e)
    (hc : c ∈ e.children) : Follows root c := by
  obtain ⟨n, hn, hplaced⟩ := h
  obtain ⟨m, hm, hbelow⟩ := lowers_of_mem_children hn hc
  exact ⟨m, hm, List.Subset.trans hbelow hplaced⟩

/-- Every execution of a run follows the rule tree that the plan came from. -/
theorem follows_of_mem_executions {document : Rule.Document} {plan : Plan}
    (hplan : Plan.ofDocument document = .ok plan) {input : Value} {e : Execution}
    (he : e ∈ (top plan input).executions) : Follows document.root e :=
  of_mem_executions (fun _ h _ hc => h.of_mem_children hc)
    ⟨document.root, lowers_top hplan input, List.Subset.refl _⟩ he

theorem Follows.exists_visit {root : Node} {e : Execution} (h : Follows root e) :
    ∃ visit ∈ root.visits .root, visit.place = e.place.static ∧
      visit.splitDepth = e.scope.depth ∧ Lowers visit.node e.node := by
  obtain ⟨n, hn, hplaced⟩ := h
  obtain ⟨visit, hvisit, hplace, hdepth, rfl⟩ :=
    Node.exists_visit_iff.mpr (hplaced (Node.mem_placed_self _ _ n))
  exact ⟨visit, hvisit, hplace, hdepth, hn⟩

/-- In every run of a compiled plan, the scope of an execution is as deep as the splits around the
node of the bundle at its place, and every path that the execution may read finds a split for each
of its wildcards. -/
theorem wildcards_bound {source : Fragment.Source} {document : Rule.Document} {plan : Plan}
    (hplan : Plan.compile source document = .ok plan) (input : Value) {e : Execution}
    (he : e ∈ (top plan input).executions) :
    let visits := (Fragment.bundle source document).document.root.visits .root
    (∃ visit ∈ visits, visit.place = e.place.static ∧ Lowers visit.node e.node) ∧
    (∀ visit ∈ visits, visit.place = e.place.static → visit.splitDepth = e.scope.depth) ∧
    ∀ path ∈ e.node.paths,
      path.wildcards ≤ e.scope.depth ∧ e.scope.locate path ≠ .error .unbound := by
  intro visits
  obtain ⟨hfound, hplan⟩ := Plan.compile_eq_ok_iff.mp hplan
  obtain ⟨visit, hvisit, hplace, hdepth, hlowers⟩ :=
    (follows_of_mem_executions hplan he).exists_visit
  refine ⟨⟨visit, hvisit, hplace, hlowers⟩, fun other hother heq => ?_, fun path hpath => ?_⟩
  · have hsplits := Node.splits_of_mem_placed (Node.mem_placed_of_mem_visits hvisit)
    have hsplits' := Node.splits_of_mem_placed (Node.mem_placed_of_mem_visits hother)
    rw [heq, ← hplace] at hsplits'
    rw [← hdepth]
    exact Nat.add_right_cancel (hsplits'.trans hsplits.symm)
  · have hpasses := Check.resolved_eq_nil_iff.mp (Plan.hasErrors_findings.mp hfound).2 visit hvisit
    have hle := wildcards_le_of_passes hpasses hlowers hpath
    rw [hdepth] at hle
    exact ⟨hle, fun hunbound =>
      Nat.not_lt.mpr hle (Scope.locate_eq_unbound_iff.mp hunbound)⟩

/-- The rule for the id of a row runs in the scope of one item, which its wildcard stands for. -/
theorem wildcards_bound_rowIds :
    Plan.compile .empty rowIds = .ok rowIdsPlan ∧
      ∃ e ∈ (top rowIdsPlan oneRow).executions, e.scope.depth = 1 ∧
        e.node.paths = [⟨true, [.key "rows", .wildcard, .key "id"]⟩] ∧
        ∀ path ∈ e.node.paths,
          path.wildcards ≤ e.scope.depth ∧ e.scope.locate path ≠ .error .unbound := by
  have hcompile : Plan.compile .empty rowIds = .ok rowIdsPlan := by cbv
  have hmem : (⟨⟨oneRow, [(.object [("id", .string "a")], 0)], false⟩,
      ⟨"root", [.step 1, .itemAt 0]⟩, ⟨"root", [.step 1, .itemAt 0]⟩,
      .field ⟨.path ⟨true, [.key "rows", .wildcard, .key "id"]⟩, [], ⟨[.key "id"]⟩, false⟩⟩ :
        Execution) ∈ (top rowIdsPlan oneRow).executions :=
    List.mem_of_getElem? (i := 3) (by cbv)
  exact ⟨hcompile, _, hmem, rfl, rfl, (wildcards_bound hcompile oneRow hmem).2.2⟩

end Execution

end Remap.Run
