import Remap.Proofs.Rule.Alike
import Remap.Proofs.Rule.Places

/-!
# Visits and their places

A walk meets every node at a place of its own (`pairwise_placed`), and from the text of this place
one comes back to the node (`at?_visit`).
-/

namespace Remap.Rule.Node

/-- The node of a document's own tree at the place that a text denotes. -/
def at? (root : Node) (text : String) : Option Node :=
  (Place.parse? text).bind fun place => root.find? place.steps

variable {n : Node} {top : Place} {k : Nat}

/-! ## Places of a walk -/

/-- What a walk meets below a step stands behind that step. -/
theorem below_of_mem_placed_down {s : Step} {e : Place × Nat × Node}
    (he : e ∈ placed (top.down s) k n) : ∃ steps, e.1 = top.below (s :: steps) := by
  obtain ⟨place, splits, m⟩ := e
  obtain ⟨steps, -, hplace, -⟩ := find?_of_mem_placed he
  exact ⟨steps, hplace.trans (Place.below_down ..)⟩

theorem below_of_mem_placedAll {s : Nat → Step} {i : Nat} {ns : List Node}
    {e : Place × Nat × Node} (he : e ∈ placedAll (fun i => top.down (s i)) k i ns) :
    ∃ j steps, i ≤ j ∧ e.1 = top.below (s j :: steps) := by
  obtain ⟨j, n, -, he⟩ := mem_placedAll.mp he
  obtain ⟨steps, heq⟩ := below_of_mem_placed_down he
  exact ⟨i + j, steps, Nat.le_add_right i j, heq⟩

/-- A walk meets no two nodes at one place. -/
theorem pairwise_placed (n : Node) (top : Place) (k : Nat) :
    (placed top k n).Pairwise fun a b => a.1 ≠ b.1 := by
  have top_ne {top a : Place} {s : Step} (ha : ∃ steps, a = top.below (s :: steps)) : top ≠ a := by
    obtain ⟨steps, rfl⟩ := ha
    intro heq
    cases Place.below_inj.mp (Place.below_nil.trans heq)
  have below_ne {top a b : Place} {s t : Step} (hst : s ≠ t)
      (ha : ∃ steps, a = top.below (s :: steps)) (hb : ∃ steps, b = top.below (t :: steps)) :
      a ≠ b := by
    obtain ⟨steps, rfl⟩ := ha
    obtain ⟨steps', rfl⟩ := hb
    exact fun heq => hst (List.head_eq_of_cons_eq (Place.below_inj.mp heq))
  have all {ns : List Node} {top : Place} {k : Nat} {s : Nat → Step}
      (hs : ∀ i j, s i = s j → i = j)
      (ih : ∀ n ∈ ns, ∀ top k, (placed top k n).Pairwise fun a b => a.1 ≠ b.1) (i : Nat) :
      (placedAll (fun i => top.down (s i)) k i ns).Pairwise fun a b => a.1 ≠ b.1 := by
    induction ns generalizing i with
    | nil => exact .nil
    | cons n ns ihns =>
      rw [placedAll, List.pairwise_append]
      refine ⟨ih n List.mem_cons_self _ _, ihns (fun m hm => ih m (List.mem_cons_of_mem _ hm)) _,
        fun a ha b hb => ?_⟩
      obtain ⟨j, steps, hj, hb⟩ := below_of_mem_placedAll hb
      exact below_ne (fun heq => absurd (hs _ _ heq) (Nat.ne_of_lt hj))
        (below_of_mem_placed_down ha) ⟨steps, hb⟩
  have consAll {ns : List Node} {top : Place} {k : Nat} {n : Node} {s : Nat → Step}
      (hs : ∀ i j, s i = s j → i = j)
      (ih : ∀ n ∈ ns, ∀ top k, (placed top k n).Pairwise fun a b => a.1 ≠ b.1) :
      ((top, k, n) :: placedAll (fun i => top.down (s i)) k 0 ns).Pairwise
        fun a b => a.1 ≠ b.1 := by
    refine List.pairwise_cons.mpr ⟨fun a ha => ?_, all hs ih 0⟩
    obtain ⟨j, steps, -, ha⟩ := below_of_mem_placedAll ha
    exact top_ne ⟨steps, ha⟩
  induction n using induct generalizing top k with
  | field | fragment => exact List.pairwise_singleton _ _
  | ifThen test yes ih =>
    exact List.pairwise_cons.mpr ⟨fun a ha => top_ne (below_of_mem_placed_down ha), ih ..⟩
  | ifElse test yes no ihyes ihno =>
    refine List.pairwise_cons.mpr ⟨fun a ha => ?_, List.pairwise_append.mpr ⟨ihyes .., ihno ..,
      fun a ha b hb => below_ne Step.noConfusion (below_of_mem_placed_down ha)
        (below_of_mem_placed_down hb)⟩⟩
    rcases List.mem_append.mp ha with ha | ha
    · exact top_ne (below_of_mem_placed_down ha)
    · exact top_ne (below_of_mem_placed_down ha)
  | split source item target ih =>
    exact List.pairwise_cons.mpr ⟨fun a ha => top_ne (below_of_mem_placed_down ha), ih ..⟩
  | merge inputs policy target ih => exact consAll (fun _ _ => Step.input.inj) ih
  | sequence steps ih => exact consAll (fun _ _ => Step.step.inj) ih

/-! ## Texts of visits -/

variable {root : Node} {visit : Visit}

theorem place_of_mem_visits (h : visit ∈ root.visits .root) :
    visit.place.tree = Place.root.tree ∧ visit.place.static = visit.place ∧
      root.find? visit.place.steps = some visit.node := by
  obtain ⟨steps, hsteps, hplace, hfind⟩ := find?_of_mem_placed (mem_placed_of_mem_visits h)
  have heq : visit.place.steps = steps := by
    rw [hplace]
    exact List.nil_append _
  have hstatic : visit.place.steps.map Step.static = visit.place.steps := by
    rw [heq]
    exact (List.map_congr_left hsteps).trans (List.map_id _)
  exact ⟨by rw [hplace]; rfl, Place.eq_of_steps rfl hstatic, heq ▸ hfind⟩

/-- No two visits have one text. -/
theorem nodup_texts (root : Node) : ((root.visits .root).map (·.place.text)).Nodup := by
  have hplaces : (root.visits .root).Pairwise fun a b => a.place ≠ b.place := by
    have h := pairwise_placed root .root 0
    rw [← List.zipIdx_map_fst 0 (placed .root 0 root), List.pairwise_map] at h
    rw [visits, List.pairwise_map]
    exact h
  refine List.pairwise_map.mpr (hplaces.imp_of_mem fun ha hb hne htext => hne ?_)
  exact Place.text_inj ((place_of_mem_visits ha).1.trans (place_of_mem_visits hb).1.symm) htext

/-- The text of a visit leads to the node that is visited. -/
theorem at?_visit (h : visit ∈ root.visits .root) (hfits : visit.place.Fits) :
    root.at? visit.place.text = some visit.node := by
  obtain ⟨htree, hstatic, hfind⟩ := place_of_mem_visits h
  rw [at?, Place.parse?_text htree hfits, hstatic, Option.bind_some, hfind]

end Remap.Rule.Node
