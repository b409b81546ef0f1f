import Remap.Proofs.Plan.Lowering
import Remap.Proofs.Rule.Places
import Remap.Run.Execute

/-!
# The executions of a run

A run executes nodes, each of which starts the executions of nodes below it. An execution writes to
the output of the one that started it, except for the inputs of a merge and the items of a split,
which begin outputs of their own. An output is known by the place at which it was begun.

The main statement is that the executions tell all of the output of a run: it is what comes of their
writes, one after the other (`output_eq_replay`).
-/

namespace Remap.Run

/-- Whether a node shares its output with the nodes that it starts, and writes nothing itself. -/
def sharesOutput : Plan.Node → Bool
  | .condition .. | .sequence _ => true
  | .field _ | .merge .. | .split .. => false

/-- A node that is executed. -/
structure Execution where
  scope : Scope
  /-- The place at which the output that it writes to was begun. -/
  tree : Rule.Place
  place : Rule.Place
  node : Plan.Node

namespace Execution

/-- The execution that a run on an input begins with. -/
def top (plan : Plan) (input : Value) : Execution :=
  ⟨.ofInput plan.inputFormat input, .root, .root, plan.root⟩

/-- The execution of a node one step down that writes to the same output. -/
def step (e : Execution) (s : Rule.Step) (node : Plan.Node) : Execution :=
  { e with place := e.place.down s, node }

/-- The execution of a node one step down that begins an output. -/
def branch (e : Execution) (s : Rule.Step) (node : Plan.Node) : Execution :=
  { e with tree := e.place.down s, place := e.place.down s, node }

/-- The execution of a node for an item of a split. -/
def item (e : Execution) (node : Plan.Node) (v : Value) (k : Nat) : Execution :=
  { e.branch (.itemAt k) node with scope := e.scope.enter v k }

/-- The items that a split finds in a scope. -/
def items (e : Execution) (source : SourcePath) : Except Problem (List Value) :=
  splitItems e.scope.loneItems source (e.scope.resolve? source)

/-- The executions that an execution starts, in order. -/
def children (e : Execution) : List Execution :=
  match e.node with
  | .field _ => []
  | .condition test yes no =>
    if (test.test e.scope).holds then [e.step .yes yes] else (no.map (e.step .no)).toList
  | .merge inputs _ _ => inputs.zipIdx.map fun (n, i) => e.branch (.input i) n
  | .split source item _ =>
    match e.items source with
    | .ok items => items.zipIdx.map fun (v, k) => e.item item v k
    | .error _ => []
  | .sequence steps => steps.zipIdx.map fun (n, i) => e.step (.step i) n

/-- How an execution follows from the one that starts it: one step down, with the same output or
with one of its own. -/
theorem of_mem_children {e c : Execution} (h : c ∈ e.children) :
    sizeOf c.node < sizeOf e.node ∧ (∃ s, c.place = e.place.down s) ∧
      c.tree = if sharesOutput e.node then e.tree else c.place := by
  unfold children at h
  split at h
  · nomatch h
  · next test yes no hnode =>
    rw [hnode]
    split at h
    · rw [List.mem_singleton.mp h]
      exact ⟨by simp [step]; omega, ⟨_, rfl⟩, rfl⟩
    · obtain ⟨n, hn, rfl⟩ := Option.map_eq_some_iff.mp (Option.mem_toList.mp h)
      rw [Option.mem_def.mp hn]
      exact ⟨by simp [step]; omega, ⟨_, rfl⟩, rfl⟩
  · next inputs policy target hnode =>
    obtain ⟨⟨n, i⟩, hn, rfl⟩ := List.mem_map.mp h
    have := List.sizeOf_lt_of_mem (List.fst_mem_of_mem_zipIdx hn)
    rw [hnode]
    exact ⟨by simp [branch] at this ⊢; omega, ⟨_, rfl⟩, rfl⟩
  · next source node target hnode =>
    rw [hnode]
    split at h
    · obtain ⟨⟨v, k⟩, -, rfl⟩ := List.mem_map.mp h
      exact ⟨by simp [item, branch]; omega, ⟨_, rfl⟩, rfl⟩
    · nomatch h
  · next steps hnode =>
    obtain ⟨⟨n, i⟩, hn, rfl⟩ := List.mem_map.mp h
    have := List.sizeOf_lt_of_mem (List.fst_mem_of_mem_zipIdx hn)
    rw [hnode]
    exact ⟨by simp [step] at this ⊢; omega, ⟨_, rfl⟩, rfl⟩

theorem tree_of_shares {e c : Execution} (h : sharesOutput e.node = true) (hc : c ∈ e.children) :
    c.tree = e.tree := by
  rw [(of_mem_children hc).2.2, if_pos h]

theorem tree_of_not_shares {e c : Execution} (h : sharesOutput e.node = false)
    (hc : c ∈ e.children) : c.tree = c.place := by
  have htree := (of_mem_children hc).2.2
  rwa [h, if_neg Bool.false_ne_true] at htree

/-- An execution and all that follow from it, in the order in which they are started. -/
def executions (e : Execution) : List Execution :=
  e :: e.children.attach.flatMap fun ⟨c, _⟩ => executions c
termination_by sizeOf e.node
decreasing_by exact (of_mem_children ‹_›).1

theorem executions_eq (e : Execution) :
    e.executions = e :: e.children.flatMap executions := by
  rw [executions]
  simp only [List.flatMap_subtype, List.unattach_attach]

theorem mem_executions {e x : Execution} :
    x ∈ e.executions ↔ x = e ∨ ∃ c ∈ e.children, x ∈ c.executions := by
  rw [executions_eq, List.mem_cons, List.mem_flatMap]

theorem self_mem_executions (e : Execution) : e ∈ e.executions := mem_executions.mpr (.inl rfl)

theorem mem_executions_of_mem_children {e c x : Execution} (hc : c ∈ e.children)
    (hx : x ∈ c.executions) : x ∈ e.executions :=
  mem_executions.mpr (.inr ⟨c, hc, hx⟩)

/-- Induction over executions: what holds of an execution as soon as it holds of all that it starts
holds of every execution. -/
theorem induct {motive : Execution → Prop} (start : ∀ e, (∀ c ∈ e.children, motive c) → motive e)
    (e : Execution) : motive e :=
  start e fun c _ => induct start c
termination_by sizeOf e.node
decreasing_by exact (of_mem_children ‹_›).1

/-- What is kept from an execution to those that it starts holds of all that follow from it. -/
theorem of_mem_executions {P : Execution → Prop} (hstep : ∀ e, P e → ∀ c ∈ e.children, P c)
    {e x : Execution} (he : P e) (hx : x ∈ e.executions) : P x := by
  induction e using induct with
  | start e ih =>
    obtain rfl | ⟨c, hc, hx⟩ := mem_executions.mp hx
    · exact he
    · exact ih c hc (hstep e he c hc) hx

/-! ## Outputs -/

/-- The output of an execution that begins with `before`. -/
def output (e : Execution) (before : Value) : Value :=
  (exec e.scope e.place e.node before).output

/-- What an execution writes itself, once those that it starts have ended: the target and the
value. -/
def write? (e : Execution) : Option (TargetPath × Value) :=
  match e.node with
  | .field f =>
    match origin e.scope f with
    | .error _ => none
    | .ok v =>
      match applyAll e.scope 0 v f.operations with
      | .value v => some (f.target, v)
      | .failed .. => none
  | .merge _ policy target =>
    let combined := (Merge.combine policy (e.children.map (output · .null))).1
    if combined.isVacant && policy ≠ .appendArray then none else some (target, combined)
  | .split source _ target =>
    match e.items source with
    | .ok _ => some (target, .array (e.children.map (output · .null)))
    | .error _ => none
  | .condition .. | .sequence _ => none

/-- What `f` tells of an execution and all that follow from it, in order, of those that write to the
output begun at a place. -/
def collect {α : Type} (f : Execution → Option α) (e : Execution) (tree : Rule.Place) : List α :=
  e.executions.filterMap fun x => if x.tree = tree then f x else none

theorem collect_eq {α : Type} (f : Execution → Option α) (e : Execution) (tree : Rule.Place) :
    e.collect f tree =
      (if e.tree = tree then f e else none).toList ++ e.children.flatMap (collect f · tree) := by
  rw [collect, executions_eq, List.filterMap_cons]
  split <;> simp [*, List.filterMap_flatMap, collect]

theorem mem_collect {α : Type} {f : Execution → Option α} {e : Execution} {tree : Rule.Place}
    {a : α} : a ∈ e.collect f tree ↔ ∃ x ∈ e.executions, x.tree = tree ∧ f x = some a := by
  simp [collect, List.mem_filterMap]

/-- The writes to the output that was begun at a place. -/
def writes (e : Execution) (tree : Rule.Place) : List (TargetPath × Value) := e.collect write? tree

/-! ## Outputs are kept apart -/

/-- An execution stands at or below the place at which its output was begun. -/
def Rooted (e : Execution) : Prop := ∃ steps, e.place = e.tree.below steps

theorem rooted_top (plan : Plan) (input : Value) : (top plan input).Rooted :=
  ⟨[], Rule.Place.below_nil.symm⟩

theorem Rooted.of_mem_children {e c : Execution} (he : e.Rooted) (hc : c ∈ e.children) :
    c.Rooted := by
  obtain ⟨above, habove⟩ := he
  obtain ⟨-, ⟨s, hplace⟩, -⟩ := Execution.of_mem_children hc
  cases hshares : sharesOutput e.node with
  | true =>
    refine ⟨above ++ [s], ?_⟩
    rw [hplace, habove, tree_of_shares hshares hc, Rule.Place.down_eq_below,
      Rule.Place.below_below]
  | false => exact ⟨[], by rw [tree_of_not_shares hshares hc, Rule.Place.below_nil]⟩

theorem Rooted.ne_below {e : Execution} (he : e.Rooted) (s : Rule.Step) (steps : List Rule.Step) :
    e.tree ≠ e.place.below (s :: steps) := by
  obtain ⟨above, habove⟩ := he
  intro heq
  rw [habove, Rule.Place.below_below] at heq
  have hnil : [] = above ++ s :: steps := by rwa [← Rule.Place.below_inj, Rule.Place.below_nil]
  exact List.append_ne_nil_of_right_ne_nil _ (List.cons_ne_nil _ _) hnil.symm

/-- An output that a child writes to, or one begun below it, is that of the execution itself, if
they share it, or one begun below it on the way to the child. -/
theorem tree_of_child {e c : Execution} {tree : Rule.Place} (hc : c ∈ e.children)
    (h : tree = c.tree ∨ ∃ s steps, tree = c.place.below (s :: steps)) :
    (sharesOutput e.node = true ∧ tree = e.tree) ∨
      ∃ s steps, c.place = e.place.down s ∧ tree = e.place.below (s :: steps) := by
  obtain ⟨-, ⟨s, hplace⟩, -⟩ := of_mem_children hc
  rcases h with h | ⟨s', steps, h⟩
  · cases hshares : sharesOutput e.node with
    | true => exact .inl ⟨rfl, h.trans (tree_of_shares hshares hc)⟩
    | false =>
      refine .inr ⟨s, [], hplace, ?_⟩
      rw [h, tree_of_not_shares hshares hc, hplace, Rule.Place.down_eq_below]
  · exact .inr ⟨s, s' :: steps, hplace, by rw [h, hplace, Rule.Place.below_down]⟩

/-- An execution that follows writes to the same output or to one begun further down. -/
theorem tree_of_mem_executions {e x : Execution} (hx : x ∈ e.executions) :
    x.tree = e.tree ∨ ∃ s steps, x.tree = e.place.below (s :: steps) := by
  induction e using induct with
  | start e ih =>
    obtain rfl | ⟨c, hc, hx⟩ := mem_executions.mp hx
    · exact .inl rfl
    · rcases tree_of_child hc (ih c hc hx) with ⟨-, htree⟩ | ⟨s, steps, -, htree⟩
      · exact .inl htree
      · exact .inr ⟨s, steps, htree⟩

/-- Where an output is not shared, nothing but the execution itself writes to it. -/
theorem collect_of_not_shares {α : Type} (f : Execution → Option α) {e : Execution} (he : e.Rooted)
    (h : sharesOutput e.node = false) : e.collect f e.tree = (f e).toList := by
  rw [collect_eq, if_pos rfl, List.flatMap_eq_nil_iff.mpr, List.append_nil]
  intro c hc
  refine List.filterMap_eq_nil_iff.mpr fun x hx => if_neg fun htree => ?_
  rcases tree_of_child hc (tree_of_mem_executions hx) with ⟨hshares, -⟩ | ⟨s, steps, -, hbelow⟩
  · rw [h] at hshares
    nomatch hshares
  · exact he.ne_below s steps (htree.symm.trans hbelow)

/-! ## Replaying writes -/

/-- An output after a write. -/
def put (before : Value) (write : TargetPath × Value) : Value :=
  (Output.write before write.1 write.2).tree

theorem output_writeTo (before : Value) (target : TargetPath) (v : Value) (place : Rule.Place) :
    (writeTo before target v place).output = put before (target, v) := by
  simp only [writeTo, put]
  split <;> rfl

theorem output_execSteps (scope : Scope) (place : Rule.Place) (i : Nat) (steps : List Plan.Node)
    (before : Value) :
    (execSteps scope place i steps before).output =
      (steps.zipIdx i).foldl (fun before (n, i) =>
        (exec scope (place.down (.step i)) n before).output) before := by
  induction steps generalizing i before with
  | nil => rfl
  | cons n steps ih => rw [execSteps, List.zipIdx_cons, List.foldl_cons, ← ih]

theorem outputs_execInputs (scope : Scope) (place : Rule.Place) (i : Nat)
    (inputs : List Plan.Node) :
    (execInputs scope place i inputs).1 =
      (inputs.zipIdx i).map fun (n, i) => (exec scope (place.down (.input i)) n .null).output := by
  induction inputs generalizing i with
  | nil => rfl
  | cons n inputs ih => rw [execInputs, List.zipIdx_cons, List.map_cons, ← ih]

theorem outputs_runItems (run : Nat → Value → Step) (k : Nat) (items : List Value) :
    (runItems run k items).1 = (items.zipIdx k).map fun (v, k) => (run k v).output := by
  induction items generalizing k with
  | nil => rfl
  | cons v items ih => rw [runItems, List.zipIdx_cons, List.map_cons, ← ih]

theorem output_field {e : Execution} {f : Plan.Field} (h : e.node = .field f) (before : Value) :
    e.output before = e.write?.toList.foldl put before := by
  simp only [output, write?, h, exec, runField]
  cases origin e.scope f with
  | error source => rfl
  | ok v =>
    simp only
    cases applyAll e.scope 0 v f.operations with
    | value v => exact output_writeTo ..
    | failed => rfl

theorem output_merge {e : Execution} {inputs : List Plan.Node} {policy : MergePolicy}
    {target : TargetPath} (h : e.node = .merge inputs policy target) (before : Value) :
    e.output before = e.write?.toList.foldl put before := by
  have hbranches : (execInputs e.scope e.place 0 inputs).1 = e.children.map (output · .null) := by
    rw [outputs_execInputs, children, h, List.map_map]
    rfl
  simp only [write?, h]
  generalize e.children.map (output · .null) = branches at hbranches
  simp only [output, h, exec, hbranches]
  split
  · rfl
  · exact output_writeTo ..

theorem output_split {e : Execution} {source : SourcePath} {item : Plan.Node}
    {target : TargetPath} (h : e.node = .split source item target) (before : Value) :
    e.output before = e.write?.toList.foldl put before := by
  have hchildren {items : List Value} (hitems : e.items source = .ok items) :
      e.children = items.zipIdx.map fun (v, k) => e.item item v k := by
    simp only [children, h, hitems]
  simp only [write?, h]
  cases hitems : e.items source with
  | error problem =>
    simp only [output, h, exec]
    rw [items] at hitems
    simp only [hitems]
    rfl
  | ok items =>
    have houtputs : e.children.map (output · .null) = (items.zipIdx).map fun (v, k) =>
        (exec (e.scope.enter v k) (e.place.down (.itemAt k)) item .null).output := by
      rw [hchildren hitems, List.map_map]
      rfl
    simp only [houtputs]
    rw [Execution.items] at hitems
    simp only [output, h, exec, hitems, outputs_runItems]
    exact output_writeTo ..

/-- An output that is not shared is written to at most once. -/
theorem output_of_not_shares {e : Execution} (h : sharesOutput e.node = false) (before : Value) :
    e.output before = e.write?.toList.foldl put before := by
  cases hnode : e.node with
  | field f => exact output_field hnode before
  | merge inputs policy target => exact output_merge hnode before
  | split source item target => exact output_split hnode before
  | condition test yes no => rw [hnode] at h; nomatch h
  | sequence steps => rw [hnode] at h; nomatch h

theorem write?_of_shares {e : Execution} (h : sharesOutput e.node = true) : e.write? = none := by
  cases hnode : e.node with
  | condition test yes no => rw [write?, hnode]
  | sequence steps => rw [write?, hnode]
  | field f => rw [hnode] at h; nomatch h
  | merge inputs policy target => rw [hnode] at h; nomatch h
  | split source item target => rw [hnode] at h; nomatch h

/-- An output that is shared is handed on from one child to the next. -/
theorem output_of_shares {e : Execution} (h : sharesOutput e.node = true) (before : Value) :
    e.output before = e.children.foldl (fun before c => c.output before) before := by
  cases hnode : e.node with
  | condition test yes no =>
    cases no with
    | none => simp only [output, children, hnode, exec]; split <;> rfl
    | some no => simp only [output, children, hnode, exec]; split <;> rfl
  | sequence steps =>
    simp only [output, children, hnode, exec, output_execSteps, List.foldl_map]
    rfl
  | field f => rw [hnode] at h; nomatch h
  | merge inputs policy target => rw [hnode] at h; nomatch h
  | split source item target => rw [hnode] at h; nomatch h

/-- The output of an execution is what comes of the writes to it, one after the other. -/
theorem output_eq_replay {e : Execution} (he : e.Rooted) (before : Value) :
    e.output before = (e.writes e.tree).foldl put before := by
  induction e using induct generalizing before with
  | start e ih =>
    cases hshares : sharesOutput e.node with
    | false => rw [output_of_not_shares hshares, writes, collect_of_not_shares _ he hshares]
    | true =>
      have hreplay : ∀ cs ⊆ e.children, ∀ before,
          cs.foldl (fun before c => c.output before) before =
            (cs.flatMap (writes · e.tree)).foldl put before := by
        intro cs
        induction cs with
        | nil => exact fun _ _ => rfl
        | cons c cs ihcs =>
          intro hcs before
          obtain ⟨hc, hcs⟩ := List.cons_subset.mp hcs
          rw [List.foldl_cons, List.flatMap_cons, List.foldl_append,
            ih c hc (he.of_mem_children hc), tree_of_shares hshares hc]
          exact ihcs hcs _
      rw [output_of_shares hshares, writes, collect_eq, if_pos rfl, write?_of_shares hshares,
        hreplay _ (List.Subset.refl _)]
      rfl

/-- What a run puts out is what comes of the writes to its output. -/
theorem output_start (plan : Plan) (input : Value) :
    (start plan input).output = ((top plan input).writes .root).foldl put (.object []) :=
  output_eq_replay (rooted_top plan input) (.object [])

/-! ## Executions of lowered rules

Every execution of a run is of what some node of the rule tree came down to. It stands at the place
of that node, once the indices of items are dropped, and within as many items as there are splits
around the node. -/

section Lowered

open Plan (Lowers)
open Rule (Node)

theorem lowers_top {document : Rule.Document} {plan : Plan}
    (h : Plan.ofDocument document = .ok plan) (input : Value) :
    Lowers document.root (top plan input).node := by
  obtain ⟨p, hp, rfl⟩ := Plan.ofDocument_eq_ok_iff.mp h
  exact hp

/-- What an execution starts is of what a node of its own tree came down to. The walk over that
node, from where it stands, is a part of the walk over the tree. -/
theorem lowers_of_mem_children {n : Node} {e c : Execution} (h : Lowers n e.node)
    (hc : c ∈ e.children) :
    ∃ m, Lowers m c.node ∧ Node.placed c.place.static c.scope.depth m ⊆
      Node.placed e.place.static e.scope.depth n := by
  obtain ⟨scope, tree, place, node⟩ := e
  cases h with
  | field => cases hc
  | @ifThen test p yes yes' htest hyes =>
    simp only [children] at hc
    split at hc
    · rw [List.mem_singleton.mp hc]
      refine ⟨yes, hyes, ?_⟩
      simp only [step, Rule.Place.static_down, Node.placed]
      exact List.subset_cons_self _ _
    · cases hc
  | @ifElse test p yes no yes' no' htest hyes hno =>
    simp only [children] at hc
    split at hc
    · rw [List.mem_singleton.mp hc]
      refine ⟨yes, hyes, ?_⟩
      simp only [step, Rule.Place.static_down, Node.placed]
      exact List.Subset.trans (List.subset_append_left ..) (List.subset_cons_self _ _)
    · rw [List.mem_singleton.mp hc]
      refine ⟨no, hno, ?_⟩
      simp only [step, Rule.Place.static_down, Node.placed]
      exact List.Subset.trans (List.subset_append_right ..) (List.subset_cons_self _ _)
  | @merge inputs inputs' policy target t ht hinputs =>
    obtain ⟨⟨p, i⟩, hp, rfl⟩ := List.mem_map.mp hc
    obtain ⟨m, hm, hlowers⟩ := forall₂_getElem? hinputs (List.mem_zipIdx_iff_getElem?.mp hp)
    refine ⟨m, hlowers, fun x hx => List.mem_cons_of_mem _ (Node.mem_placedAll.mpr ⟨i, m, hm, ?_⟩)⟩
    simpa [branch, Rule.Step.static] using hx
  | @split source target s t item item' hs ht hitem =>
    simp only [children] at hc
    split at hc
    · obtain ⟨⟨v, k⟩, -, rfl⟩ := List.mem_map.mp hc
      refine ⟨item, hitem, ?_⟩
      simp only [Execution.item, branch, Rule.Place.static_down, Node.placed]
      exact List.subset_cons_self _ _
    · cases hc
  | @sequence steps steps' hsteps =>
    obtain ⟨⟨p, i⟩, hp, rfl⟩ := List.mem_map.mp hc
    obtain ⟨m, hm, hlowers⟩ := forall₂_getElem? hsteps (List.mem_zipIdx_iff_getElem?.mp hp)
    refine ⟨m, hlowers, fun x hx => List.mem_cons_of_mem _ (Node.mem_placedAll.mpr ⟨i, m, hm, ?_⟩)⟩
    simpa [step, Rule.Step.static] using hx

/-! ## An example -/

/-- A document that copies a name and the ids of rows. -/
def rowIds : Rule.Document :=
  ⟨"1.2", .json, .json, [], [], .sequence
    [.field ⟨.path "name", [], "name", false⟩,
      .split "rows" (.field ⟨.path "$.rows[*].id", [], "id", false⟩) "ids"]⟩

/-- The plan of the document that copies a name and the ids of rows. -/
def rowIdsPlan : Plan :=
  ⟨"1.2", .json, .json, .sequence
    [.field ⟨.path ⟨false, [.key "name"]⟩, [], ⟨[.key "name"]⟩, false⟩,
      .split ⟨false, [.key "rows"]⟩
        (.field ⟨.path ⟨true, [.key "rows", .wildcard, .key "id"]⟩, [], ⟨[.key "id"]⟩, false⟩)
        ⟨[.key "ids"]⟩]⟩

/-- An input with one row. -/
def oneRow : Value :=
  .object [("name", .string "n"), ("rows", .array [.object [("id", .string "a")]])]

end Lowered

end Execution

end Remap.Run
