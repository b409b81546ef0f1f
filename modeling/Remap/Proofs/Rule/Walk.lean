import Mathlib.Data.List.Forall2
import Remap.Rule.Walk

/-!
# The nodes of rule trees

Induction over rule trees, and the nodes of a tree from the top down. Which nodes a walk meets does
not depend on where the tree stands (`map_placed`), and a visit is an entry of the walk with its
number (`exists_visit_iff`).
-/

namespace Remap.Rule.Node

/-- Induction over rule trees. The nodes of a list satisfy the motive one by one. -/
theorem induct {motive : Node → Prop} (field : ∀ f, motive (.field f))
    (ifThen : ∀ test yes, motive yes → motive (.condition test yes none))
    (ifElse : ∀ test yes no, motive yes → motive no → motive (.condition test yes (some no)))
    (merge : ∀ inputs policy target, (∀ n ∈ inputs, motive n) →
      motive (.merge inputs policy target))
    (split : ∀ source item target, motive item → motive (.split source item target))
    (fragment : ∀ name, motive (.fragment name))
    (sequence : ∀ steps, (∀ n ∈ steps, motive n) → motive (.sequence steps)) (n : Node) :
    motive n := by
  refine Node.rec (motive_1 := motive) (motive_2 := fun o => ∀ n, o = some n → motive n)
    (motive_3 := fun ns => ∀ n ∈ ns, motive n) field ?_ merge split fragment sequence
    (fun _ h => nomatch h) (fun _ h _ heq => by cases heq; exact h) (fun _ h => nomatch h) ?_ n
  · intro test yes no hyes hno
    cases no with
    | none => exact ifThen test yes hyes
    | some no => exact ifElse test yes no hyes (hno no rfl)
  · intro head tail hhead htail n hn
    rcases List.mem_cons.mp hn with rfl | hn
    · exact hhead
    · exact htail n hn

/-! ## The nodes of a tree -/

mutual

/-- The nodes of a tree from the top down. -/
def nodes : Node → List Node
  | field f => [field f]
  | fragment name => [fragment name]
  | condition test yes none => condition test yes none :: nodes yes
  | condition test yes (some no) => condition test yes (some no) :: (nodes yes ++ nodes no)
  | merge inputs policy target => merge inputs policy target :: allNodes inputs
  | split source item target => split source item target :: nodes item
  | sequence steps => sequence steps :: allNodes steps

/-- The nodes of the trees of a list. -/
def allNodes : List Node → List Node
  | [] => []
  | n :: ns => nodes n ++ allNodes ns

end

theorem mem_allNodes {ns : List Node} {m : Node} : m ∈ allNodes ns ↔ ∃ n ∈ ns, m ∈ n.nodes := by
  induction ns with
  | nil => simp [allNodes]
  | cons n ns ih => simp [allNodes, ih]

theorem mem_placedAll {place : Nat → Place} {splits i : Nat} {ns : List Node}
    {e : Place × Nat × Node} :
    e ∈ placedAll place splits i ns ↔
      ∃ j n, ns[j]? = some n ∧ e ∈ placed (place (i + j)) splits n := by
  induction ns generalizing i with
  | nil => simp [placedAll]
  | cons n ns ih =>
    simp only [placedAll, List.mem_append, ih]
    constructor
    · rintro (h | ⟨j, m, hm, h⟩)
      · exact ⟨0, n, rfl, h⟩
      · exact ⟨j + 1, m, hm, by rwa [Nat.add_assoc, Nat.add_comm 1 j] at h⟩
    · rintro ⟨j, m, hm, h⟩
      cases j with
      | zero => cases hm; exact .inl h
      | succ j => exact .inr ⟨j, m, hm, by rwa [Nat.add_assoc, Nat.add_comm 1 j]⟩

/-- The nodes that a walk meets do not depend on where the tree stands. -/
theorem map_placed (n : Node) (place : Place) (splits : Nat) :
    (placed place splits n).map (·.2.2) = n.nodes := by
  have all {ns : List Node} (h : ∀ n ∈ ns, ∀ place splits,
      (placed place splits n).map (·.2.2) = n.nodes) (place : Nat → Place) (splits i : Nat) :
      (placedAll place splits i ns).map (·.2.2) = allNodes ns := by
    induction ns generalizing i with
    | nil => rfl
    | cons n ns ih =>
      rw [placedAll, List.map_append, allNodes, h n List.mem_cons_self,
        ih fun m hm => h m (List.mem_cons_of_mem _ hm)]
  induction n using induct generalizing place splits with
  | field | fragment => rfl
  | ifThen test yes ih => simp only [nodes, placed, List.map_cons, ih]
  | ifElse test yes no ihyes ihno =>
    simp only [nodes, placed, List.map_cons, List.map_append, ihyes, ihno]
  | split source item target ih => simp only [nodes, placed, List.map_cons, ih]
  | merge inputs policy target ih => simp only [nodes, placed, List.map_cons, all ih]
  | sequence steps ih => simp only [nodes, placed, List.map_cons, all ih]

theorem mem_placed_self (place : Place) (splits : Nat) (n : Node) :
    (place, splits, n) ∈ placed place splits n := by
  cases n with
  | condition test yes no => cases no <;> exact List.mem_cons_self
  | field | fragment | merge | split | sequence => exact List.mem_cons_self

/-- The number of splits around a node is that of the items on the way to it. -/
theorem splits_of_mem_placed {n m : Node} {top place : Place} {k splits : Nat}
    (h : (place, splits, m) ∈ placed top k n) :
    splits + top.steps.count .item = k + place.steps.count .item := by
  have down {top : Place} {k l : Nat} {s : Step} (hl : l = k + [s].count .item)
      (h : splits + (top.down s).steps.count .item = l + place.steps.count .item) :
      splits + top.steps.count .item = k + place.steps.count .item := by
    rw [Place.down, List.count_append] at h
    omega
  have all {top : Place} {k : Nat} {ns : List Node} {s : Nat → Step}
      (hs : ∀ i, [s i].count .item = 0)
      (ih : ∀ n ∈ ns, ∀ {top : Place} {k}, (place, splits, m) ∈ placed top k n →
        splits + top.steps.count .item = k + place.steps.count .item)
      (h : (place, splits, m) ∈ placedAll (fun i => top.down (s i)) k 0 ns) :
      splits + top.steps.count .item = k + place.steps.count .item := by
    obtain ⟨i, n, hn, h⟩ := mem_placedAll.mp h
    exact down (by rw [hs, Nat.add_zero]) (ih n (List.mem_of_getElem? hn) h)
  induction n using induct generalizing top k with
  | field | fragment => cases List.mem_singleton.mp h; rfl
  | ifThen test yes ih =>
    rcases List.mem_cons.mp h with heq | h
    · cases heq; rfl
    · exact down rfl (ih h)
  | ifElse test yes no ihyes ihno =>
    rcases List.mem_cons.mp h with heq | h
    · cases heq; rfl
    · rcases List.mem_append.mp h with h | h
      · exact down rfl (ihyes h)
      · exact down rfl (ihno h)
  | split source item target ih =>
    rcases List.mem_cons.mp h with heq | h
    · cases heq; rfl
    · exact down rfl (ih h)
  | merge inputs policy target ih =>
    rcases List.mem_cons.mp h with heq | h
    · cases heq; rfl
    · exact all (fun _ => rfl) ih h
  | sequence steps ih =>
    rcases List.mem_cons.mp h with heq | h
    · cases heq; rfl
    · exact all (fun _ => rfl) ih h

theorem length_nodes (n : Node) : n.nodes.length = n.size := by
  have all {ns : List Node} (h : ∀ n ∈ ns, n.nodes.length = n.size) :
      (allNodes ns).length = sizes ns := by
    induction ns with
    | nil => rfl
    | cons n ns ih =>
      rw [allNodes, List.length_append, sizes, h n List.mem_cons_self,
        ih fun m hm => h m (List.mem_cons_of_mem _ hm)]
  induction n using induct with
  | field | fragment => rfl
  | ifThen test yes ih => simp [nodes, size, ih]
  | ifElse test yes no ihyes ihno => simp [nodes, size, ihyes, ihno]
  | split source item target ih => simp [nodes, size, ih]
  | merge inputs policy target ih => rw [nodes, List.length_cons, all ih, size]
  | sequence steps ih => rw [nodes, List.length_cons, all ih, size]

/-! ## Visits -/

theorem length_visits (top : Place) (n : Node) : (n.visits top).length = n.size := by
  rw [visits, List.length_map, List.length_zipIdx, ← length_nodes, ← map_placed n top 0,
    List.length_map]

/-- A visit, its number aside, is an entry of the walk. -/
theorem exists_visit_iff {top : Place} {n : Node} {place : Place} {splits : Nat} {m : Node} :
    (∃ visit ∈ n.visits top, visit.place = place ∧ visit.splitDepth = splits ∧ visit.node = m) ↔
      (place, splits, m) ∈ placed top 0 n := by
  constructor
  · rintro ⟨visit, hvisit, rfl, rfl, rfl⟩
    obtain ⟨⟨e, i⟩, he, rfl⟩ := List.mem_map.mp hvisit
    exact List.fst_mem_of_mem_zipIdx he
  · intro h
    obtain ⟨i, hi⟩ := List.getElem?_of_mem h
    exact ⟨⟨i, place, m, splits⟩,
      List.mem_map.mpr ⟨((place, splits, m), i), List.mem_zipIdx_iff_getElem?.mpr hi, rfl⟩,
      rfl, rfl, rfl⟩

theorem mem_placed_of_mem_visits {top : Place} {n : Node} {visit : Visit}
    (h : visit ∈ n.visits top) : (visit.place, visit.splitDepth, visit.node) ∈ placed top 0 n :=
  exists_visit_iff.mp ⟨visit, h, rfl, rfl, rfl⟩

/-- The nodes that are visited are the nodes of the tree. -/
theorem exists_visit_of_node_iff {top : Place} {n m : Node} :
    (∃ visit ∈ n.visits top, visit.node = m) ↔ m ∈ n.nodes := by
  rw [← map_placed n top 0, List.mem_map]
  constructor
  · rintro ⟨visit, hvisit, rfl⟩
    exact ⟨_, mem_placed_of_mem_visits hvisit, rfl⟩
  · rintro ⟨⟨place, splits, m⟩, hplaced, rfl⟩
    obtain ⟨visit, hvisit, -, -, hnode⟩ := exists_visit_iff.mpr hplaced
    exact ⟨visit, hvisit, hnode⟩

/-! ## References -/

/-- The name of the fragment that a node stands for, if it does. -/
def fragment? : Node → Option String
  | fragment name => some name
  | _ => none

theorem references_eq (n : Node) : n.references = n.nodes.filterMap fragment? := by
  rw [← map_placed n .root 0, List.filterMap_map, references]
  congr 1
  funext ⟨_, _, m⟩
  cases m <;> rfl

theorem references_eq_of_nodes {n n' : Node}
    (h : List.Forall₂ (fun m m' => m'.fragment? = m.fragment?) n.nodes n'.nodes) :
    n'.references = n.references := by
  rw [references_eq, references_eq]
  generalize n.nodes = ms, n'.nodes = ms' at h
  induction h with
  | nil => rfl
  | cons hm _ ih => rw [List.filterMap_cons, List.filterMap_cons, hm, ih]

theorem mem_references {n : Node} {name : String} :
    name ∈ n.references ↔ fragment name ∈ n.nodes := by
  rw [references_eq, List.mem_filterMap]
  constructor
  · rintro ⟨m, hm, h⟩
    cases m <;> simp only [fragment?, Option.some.injEq, reduceCtorEq] at h
    exact h ▸ hm
  · exact fun h => ⟨_, h, rfl⟩

theorem references_eq_nil {n : Node} :
    n.references = [] ↔ ∀ name, fragment name ∉ n.nodes := by
  simp only [List.eq_nil_iff_forall_not_mem, mem_references]

end Remap.Rule.Node
