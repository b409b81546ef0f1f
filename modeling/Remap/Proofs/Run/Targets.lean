import Mathlib.Data.List.Nodup
import Mathlib.Data.List.Pairwise
import Mathlib.Data.List.Permutation
import Remap.Proofs.Check.Resolved
import Remap.Proofs.Run.Executions

/-!
# Targets of a run

The main statement is that fields and splits which write to one output do so at different targets,
if the checks report no collision (`nodup_targets`). Two executions of which neither follows from
the other part ways at some node. If that node is a sequence, its steps write different targets, by
the checks; of a condition only one branch runs; and below a merge or a split they write to outputs
that were begun at different places.
-/

namespace Remap.Run.Execution

open Plan (Lowers)
open Rule (Node)

/-- The target of an execution that writes, if it is of a field or a split. -/
def target? (e : Execution) : Option TargetPath :=
  match e.node with
  | .field _ | .split .. => e.write?.map (·.1)
  | .condition .. | .merge .. | .sequence _ => none

/-- The targets at which fields and splits write to the output that was begun at a place. -/
def targets (e : Execution) (tree : Rule.Place) : List TargetPath := e.collect target? tree

/-! ## Different places -/

theorem pairwise_place_ne_map {α : Type} (p : Rule.Place) {s : Nat → Rule.Step}
    (hs : ∀ i j, s i = s j → i = j) (child : α × Nat → Execution)
    (hchild : ∀ x, (child x).place = p.down (s x.2)) (xs : List α) :
    (xs.zipIdx.map child).Pairwise fun c d => c.place ≠ d.place := by
  have hnumbers : xs.zipIdx.Pairwise fun x y => x.2 ≠ y.2 := by
    rw [← List.pairwise_map, List.zipIdx_map_snd]
    exact List.nodup_range' 1
  refine List.pairwise_map.mpr (hnumbers.imp fun {x y} hne heq => hne (hs _ _ ?_))
  rw [hchild, hchild, Rule.Place.down_eq_below, Rule.Place.down_eq_below,
    Rule.Place.below_inj] at heq
  exact List.head_eq_of_cons_eq heq

/-- The executions that an execution starts stand at different places. -/
theorem pairwise_place_ne (e : Execution) :
    e.children.Pairwise fun c d => c.place ≠ d.place := by
  unfold children
  split
  · exact .nil
  · next test yes no _ =>
    split
    · exact List.pairwise_singleton _ _
    · cases no with
      | none => exact .nil
      | some no => exact List.pairwise_singleton _ _
  · exact pairwise_place_ne_map e.place (fun _ _ => Rule.Step.input.inj) _ (fun _ => rfl) _
  · split
    · exact pairwise_place_ne_map e.place (fun _ _ => Rule.Step.itemAt.inj) _ (fun _ => rfl) _
    · exact .nil
  · exact pairwise_place_ne_map e.place (fun _ _ => Rule.Step.step.inj) _ (fun _ => rfl) _

/-- To an output begun further down only one of the executions that an execution starts leads. -/
theorem pairwise_disjoint_of_ne {e : Execution} {tree : Rule.Place} (hne : e.tree ≠ tree) :
    e.children.Pairwise fun c d => ∀ t ∈ c.targets tree, t ∉ d.targets tree := by
  refine e.pairwise_place_ne.imp_of_mem fun {c d} hc hd hplace t htc htd => ?_
  obtain ⟨x, hx, hxtree, -⟩ := mem_collect.mp htc
  obtain ⟨y, hy, hytree, -⟩ := mem_collect.mp htd
  rcases tree_of_child hc (tree_of_mem_executions hx) with ⟨-, htree⟩ | ⟨s, steps, hcplace, hx⟩
  · exact hne (htree.symm.trans hxtree)
  rcases tree_of_child hd (tree_of_mem_executions hy) with ⟨-, htree⟩ | ⟨s', steps', hdplace, hy⟩
  · exact hne (htree.symm.trans hytree)
  rw [hxtree] at hx
  rw [hytree, hx, Rule.Place.below_inj] at hy
  rw [hcplace, hdplace, List.head_eq_of_cons_eq hy] at hplace
  exact hplace rfl

/-! ## Targets of the rules -/

theorem target?_of_shares {e : Execution} (h : sharesOutput e.node = true) : e.target? = none := by
  unfold target?
  split
  · rw [write?_of_shares h]; rfl
  · rw [write?_of_shares h]; rfl
  · rfl
  · rfl
  · rfl

/-- Where an output is shared, what is written to it is written by those that share it. -/
theorem targets_of_shares {e : Execution} (h : sharesOutput e.node = true) :
    e.targets e.tree = e.children.flatMap (targets · e.tree) := by
  rw [targets, collect_eq, if_pos rfl, target?_of_shares h]
  rfl

theorem target?_field {e : Execution} {f : Plan.Field} (hnode : e.node = .field f) {t : TargetPath}
    (h : e.target? = some t) : t = f.target := by
  simp only [target?, write?, hnode, Option.map_eq_some_iff] at h
  obtain ⟨⟨target, v⟩, hwrite, rfl⟩ := h
  split at hwrite
  · cases hwrite
  · split at hwrite
    · cases hwrite; rfl
    · cases hwrite

theorem target?_split {e : Execution} {source : SourcePath} {item : Plan.Node} {target : TargetPath}
    (hnode : e.node = .split source item target) {t : TargetPath} (h : e.target? = some t) :
    t = target := by
  simp only [target?, write?, hnode, Option.map_eq_some_iff] at h
  obtain ⟨⟨target, v⟩, hwrite, rfl⟩ := h
  split at hwrite
  · cases hwrite; rfl
  · cases hwrite

/-- What an execution writes to its output is among the targets of its rule. -/
theorem mem_writes_of_mem_targets {n : Node} {e : Execution} (h : Lowers n e.node) (he : e.Rooted)
    {t : TargetPath} (ht : t ∈ e.targets e.tree) : t ∈ n.writes := by
  induction e using induct generalizing n with
  | start e ih =>
    have hown (hshares : sharesOutput e.node = false) : e.target? = some t := by
      rwa [targets, collect_of_not_shares _ he hshares, Option.mem_toList] at ht
    have hchild (hshares : sharesOutput e.node = true) :
        ∃ c ∈ e.children, ∀ m, Lowers m c.node → t ∈ m.writes := by
      rw [targets_of_shares hshares] at ht
      obtain ⟨c, hc, ht⟩ := List.mem_flatMap.mp ht
      rw [← tree_of_shares hshares hc] at ht
      exact ⟨c, hc, fun m hm => ih c hc hm (he.of_mem_children hc) ht⟩
    generalize hnode : e.node = node at h hown hchild
    cases h with
    | field hf =>
      rw [target?_field hnode (hown rfl), Node.writes, hf.target]
      exact List.mem_singleton_self _
    | split hs htarget _ =>
      rw [target?_split hnode (hown rfl), Node.writes, htarget]
      exact List.mem_singleton_self _
    | merge =>
      have hnone := hown rfl
      rw [target?, hnode] at hnone
      cases hnone
    | ifThen htest hyes =>
      obtain ⟨c, hc, hwrites⟩ := hchild rfl
      simp only [children, hnode] at hc
      split at hc
      · rw [List.mem_singleton.mp hc] at hwrites
        rw [Node.writes]
        exact hwrites _ hyes
      · cases hc
    | ifElse htest hyes hno =>
      obtain ⟨c, hc, hwrites⟩ := hchild rfl
      simp only [children, hnode] at hc
      split at hc
      · rw [List.mem_singleton.mp hc] at hwrites
        exact List.mem_append_left _ (hwrites _ hyes)
      · rw [List.mem_singleton.mp hc] at hwrites
        exact List.mem_append_right _ (hwrites _ hno)
    | sequence hsteps =>
      obtain ⟨c, hc, hwrites⟩ := hchild rfl
      rw [children, hnode] at hc
      obtain ⟨⟨p, i⟩, hp, rfl⟩ := List.mem_map.mp hc
      obtain ⟨m, hm, hlowers⟩ := forall₂_getElem? hsteps (List.mem_zipIdx_iff_getElem?.mp hp)
      exact Node.mem_allWrites.mpr ⟨m, List.mem_of_getElem? hm, hwrites m hlowers⟩

/-- The steps of a sequence without collisions write different targets to the output that they
share; of the branches of a condition only one is executed. -/
theorem pairwise_disjoint_of_shares {n : Node} {e : Execution} (h : Lowers n e.node)
    (he : e.Rooted) (hn : n.Collisionless) (hshares : sharesOutput e.node = true) :
    e.children.Pairwise fun c d => ∀ t ∈ c.targets e.tree, t ∉ d.targets e.tree := by
  have hwrites {c : Execution} (hc : c ∈ e.children) {m : Node} (hm : Lowers m c.node)
      {t : TargetPath} (ht : t ∈ c.targets e.tree) : t ∈ m.writes := by
    rw [← tree_of_shares hshares hc] at ht
    exact mem_writes_of_mem_targets hm (he.of_mem_children hc) ht
  generalize hnode : e.node = node at h hshares
  cases h with
  | field | split | merge => cases hshares
  | ifThen =>
    simp only [children, hnode]
    split
    · exact List.pairwise_singleton _ _
    · exact .nil
  | ifElse =>
    simp only [children, hnode]
    split
    · exact List.pairwise_singleton _ _
    · exact List.pairwise_singleton _ _
  | @sequence steps lowered hsteps =>
    have hchildren : e.children = lowered.zipIdx.map fun p => e.step (.step p.2) p.1 := by
      rw [children, hnode]
    have hrule {i : Nat} (hi : i < e.children.length) :
        ∃ m, steps[i]? = some m ∧ Lowers m e.children[i].node := by
      have hp : lowered[i]? = some e.children[i].node := by
        simp only [hchildren, List.length_map, List.length_zipIdx] at hi
        simp [hchildren, step, hi]
      exact forall₂_getElem? hsteps hp
    -- Two children are of two steps, and the checks compare steps in pairs.
    refine List.pairwise_iff_getElem.mpr fun i j hi hj hij t hti htj => ?_
    obtain ⟨m, hm, hlowers⟩ := hrule hi
    obtain ⟨m', hm', hlowers'⟩ := hrule hj
    obtain ⟨hi', rfl⟩ := List.getElem?_eq_some_iff.mp hm
    obtain ⟨hj', rfl⟩ := List.getElem?_eq_some_iff.mp hm'
    exact List.pairwise_iff_getElem.mp (hn steps List.mem_cons_self) i j hi' hj' hij t
      (hwrites (List.getElem_mem hi) hlowers hti) (hwrites (List.getElem_mem hj) hlowers' htj)

/-! ## All outputs -/

theorem nodup_targets_of_lowers {n : Node} {e : Execution} (h : Lowers n e.node) (he : e.Rooted)
    (hn : n.Collisionless) (tree : Rule.Place) : (e.targets tree).Nodup := by
  induction e using induct generalizing n with
  | start e ih =>
    have hchildren : ∀ c ∈ e.children, (c.targets tree).Nodup := by
      intro c hc
      obtain ⟨m, hm, hplaced⟩ := lowers_of_mem_children h hc
      refine ih c hc hm (he.of_mem_children hc) fun steps hsteps => hn steps ?_
      rw [← Node.map_placed _ c.place.static c.scope.depth] at hsteps
      rw [← Node.map_placed _ e.place.static e.scope.depth]
      exact List.map_subset _ hplaced hsteps
    by_cases htree : e.tree = tree
    · subst htree
      cases hshares : sharesOutput e.node with
      | false =>
        rw [targets, collect_of_not_shares _ he hshares]
        cases e.target? with
        | none => exact List.nodup_nil
        | some t => exact List.nodup_singleton t
      | true =>
        rw [targets_of_shares hshares]
        exact List.nodup_flatMap.mpr ⟨hchildren, pairwise_disjoint_of_shares h he hn hshares⟩
    · rw [targets, collect_eq, if_neg htree]
      exact List.nodup_flatMap.mpr ⟨hchildren, pairwise_disjoint_of_ne htree⟩

/-- If no collision is reported of a document, then in every run of its plan the fields and splits
that write to one output have different targets. -/
theorem nodup_targets {document : Rule.Document} {plan : Plan}
    (hplan : Plan.ofDocument document = .ok plan)
    (hcheck : ∀ finding ∈ (document.root.visits .root).flatMap Check.structureProblems,
      finding.2.code ≠ .targetCollision)
    (input : Value) (tree : Rule.Place) :
    (((top plan input).targets tree).map TargetPath.segments).Nodup := by
  have hnodup := nodup_targets_of_lowers (lowers_top hplan input) (rooted_top plan input)
    (Check.collisionless_of_structureProblems hcheck) tree
  refine hnodup.map fun s t hst => ?_
  cases s; cases t
  exact congrArg TargetPath.mk hst

/-- The name and the ids of rows are written to different targets. -/
theorem nodup_targets_rowIds :
    Plan.ofDocument rowIds = .ok rowIdsPlan ∧
      (rowIds.root.visits .root).flatMap Check.structureProblems = [] ∧
      (top rowIdsPlan oneRow).targets .root = [⟨[.key "name"]⟩, ⟨[.key "ids"]⟩] ∧
      (((top rowIdsPlan oneRow).targets .root).map TargetPath.segments).Nodup := by
  have hplan : Plan.ofDocument rowIds = .ok rowIdsPlan := by rfl
  have hnone : (rowIds.root.visits .root).flatMap Check.structureProblems = [] := by rfl
  refine ⟨hplan, hnone, by cbv, nodup_targets hplan (fun finding hfinding => ?_) oneRow .root⟩
  rw [hnone] at hfinding
  cases hfinding

end Remap.Run.Execution
