import Remap.Check.Structure
import Remap.Proofs.Lists
import Remap.Proofs.Rule.Places
import Remap.Proofs.Rule.Walk

/-!
# Trees that are alike

Trees are alike (`Alike`) if they differ in their fields alone, and these are related one by one.
Walks over such trees go side by side. A tree is alike the one that has images of its fields in
their places (`mapFields`), where an image may depend on the steps that lead down to the field.
-/

namespace Remap.Rule

namespace Node

/-! ## Alike trees -/

/-- Trees that differ in nothing but their fields, each related to the one in its place. -/
inductive Alike (R : Field → Field → Prop) : Node → Node → Prop where
  | field {f f' : Field} : R f f' → Alike R (.field f) (.field f')
  | ifThen {test : Condition} {yes yes' : Node} : Alike R yes yes' →
      Alike R (.condition test yes none) (.condition test yes' none)
  | ifElse {test : Condition} {yes no yes' no' : Node} : Alike R yes yes' → Alike R no no' →
      Alike R (.condition test yes (some no)) (.condition test yes' (some no'))
  | merge {inputs inputs' : List Node} {policy : MergePolicy} {target : String} :
      List.Forall₂ (Alike R) inputs inputs' →
      Alike R (.merge inputs policy target) (.merge inputs' policy target)
  | split {source target : String} {item item' : Node} : Alike R item item' →
      Alike R (.split source item target) (.split source item' target)
  | fragment {name : String} : Alike R (.fragment name) (.fragment name)
  | sequence {steps steps' : List Node} : List.Forall₂ (Alike R) steps steps' →
      Alike R (.sequence steps) (.sequence steps')

namespace Alike

variable {R S : Field → Field → Prop} {n n' : Node}

/-- Induction over trees that are alike. The motive holds of the trees of a list pair by pair. -/
theorem induct {motive : Node → Node → Prop}
    (field : ∀ f f', R f f' → motive (.field f) (.field f'))
    (ifThen : ∀ test yes yes', Alike R yes yes' → motive yes yes' →
      motive (.condition test yes none) (.condition test yes' none))
    (ifElse : ∀ test yes no yes' no', Alike R yes yes' → Alike R no no' → motive yes yes' →
      motive no no' → motive (.condition test yes (some no)) (.condition test yes' (some no')))
    (merge : ∀ inputs inputs' policy target, List.Forall₂ (Alike R) inputs inputs' →
      List.Forall₂ motive inputs inputs' →
      motive (.merge inputs policy target) (.merge inputs' policy target))
    (split : ∀ source item item' target, Alike R item item' → motive item item' →
      motive (.split source item target) (.split source item' target))
    (fragment : ∀ name, motive (.fragment name) (.fragment name))
    (sequence : ∀ steps steps', List.Forall₂ (Alike R) steps steps' →
      List.Forall₂ motive steps steps' → motive (.sequence steps) (.sequence steps'))
    (h : Alike R n n') : motive n n' := by
  refine Alike.rec (motive_1 := fun n n' _ => motive n n')
    (motive_2 := fun ns ns' _ => List.Forall₂ motive ns ns') (fun hf => field _ _ hf)
    (fun h ih => ifThen _ _ _ h ih)
    (fun hyes hno ihyes ihno => ifElse _ _ _ _ _ hyes hno ihyes ihno)
    (fun h ih => merge _ _ _ _ h ih) (fun h ih => split _ _ _ _ h ih) (fun {name} => fragment name)
    (fun h ih => sequence _ _ h ih) .nil (fun _ _ ih ihs => .cons ih ihs) h

theorem refl (hR : ∀ f, R f f) (n : Node) : Alike R n n := by
  induction n using Node.induct with
  | field f => exact .field (hR f)
  | fragment name => exact .fragment
  | ifThen test yes ih => exact .ifThen ih
  | ifElse test yes no ihyes ihno => exact .ifElse ihyes ihno
  | split source item target ih => exact .split ih
  | merge inputs policy target ih => exact .merge (List.forall₂_same.mpr ih)
  | sequence steps ih => exact .sequence (List.forall₂_same.mpr ih)

/-- Trees that are alike and that walks meet at the same place, with as many splits around. -/
structure Placed (R : Field → Field → Prop) (e e' : Place × Nat × Node) : Prop where
  place : e'.1 = e.1
  splits : e'.2.1 = e.2.1
  node : Alike R e.2.2 e'.2.2

/-- Walks over trees that are alike go side by side. -/
theorem placed (h : Alike R n n') (top : Place) (k : Nat) :
    List.Forall₂ (Placed R) (n.placed top k) (n'.placed top k) := by
  have all {ns ns' : List Node}
      (h : List.Forall₂ (fun n n' => ∀ top k,
        List.Forall₂ (Placed R) (n.placed top k) (n'.placed top k)) ns ns')
      (place : Nat → Place) (k i : Nat) :
      List.Forall₂ (Placed R) (placedAll place k i ns) (placedAll place k i ns') := by
    induction h generalizing i with
    | nil => exact .nil
    | cons hn _ ih => exact List.rel_append (hn _ _) (ih (i + 1))
  refine h.induct (motive := fun n n' => ∀ top k,
      List.Forall₂ (Placed R) (n.placed top k) (n'.placed top k))
    ?field ?ifThen ?ifElse ?merge ?split ?fragment ?sequence top k
  case field =>
    intro f f' hf top k
    exact .cons ⟨rfl, rfl, .field hf⟩ .nil
  case ifThen =>
    intro test yes yes' hyes ih top k
    exact .cons ⟨rfl, rfl, .ifThen hyes⟩ (ih _ _)
  case ifElse =>
    intro test yes no yes' no' hyes hno ihyes ihno top k
    exact .cons ⟨rfl, rfl, .ifElse hyes hno⟩ (List.rel_append (ihyes _ _) (ihno _ _))
  case merge =>
    intro inputs inputs' policy target hinputs ih top k
    exact .cons ⟨rfl, rfl, .merge hinputs⟩ (all ih _ _ _)
  case split =>
    intro source item item' target hitem ih top k
    exact .cons ⟨rfl, rfl, .split hitem⟩ (ih _ _)
  case fragment =>
    intro name top k
    exact .cons ⟨rfl, rfl, .fragment⟩ .nil
  case sequence =>
    intro steps steps' hsteps ih top k
    exact .cons ⟨rfl, rfl, .sequence hsteps⟩ (all ih _ _ _)

theorem nodes (h : Alike R n n') : List.Forall₂ (Alike R) n.nodes n'.nodes := by
  rw [← map_placed n .root 0, ← map_placed n' .root 0, List.forall₂_map_left_iff,
    List.forall₂_map_right_iff]
  exact (h.placed .root 0).imp fun _ _ he => he.node

theorem size_eq (h : Alike R n n') : n'.size = n.size := by
  rw [← length_nodes, ← length_nodes, h.nodes.length_eq]

theorem references_eq (h : Alike R n n') : n'.references = n.references := by
  refine references_eq_of_nodes (h.nodes.imp fun m m' hm => ?_)
  cases hm <;> rfl

/-- Trees that have the same fields are the same. -/
theorem eq (h : Alike (fun f f' => f' = f) n n') : n' = n := by
  have all {ns ns' : List Node} (h : List.Forall₂ (fun n n' => n' = n) ns ns') : ns' = ns := by
    induction h with
    | nil => rfl
    | cons hn _ ih => rw [hn, ih]
  refine h.induct (motive := fun n n' => n' = n) ?field ?ifThen ?ifElse ?merge ?split ?fragment
    ?sequence
  case field =>
    intro f f' hf
    rw [hf]
  case ifThen =>
    intro test yes yes' _ ih
    rw [ih]
  case ifElse =>
    intro test yes no yes' no' _ _ ihyes ihno
    rw [ihyes, ihno]
  case merge =>
    intro inputs inputs' policy target _ ih
    rw [all ih]
  case split =>
    intro source item item' target _ ih
    rw [ih]
  case fragment =>
    intro name
    rfl
  case sequence =>
    intro steps steps' _ ih
    rw [all ih]

/-- Trees that are alike write the same if their fields do. -/
theorem writes_eq (hR : ∀ f f', R f f' → f'.target = f.target) (h : Alike R n n') :
    n'.writes = n.writes := by
  have all {ns ns' : List Node} (h : List.Forall₂ (fun n n' => n'.writes = n.writes) ns ns') :
      allWrites ns' = allWrites ns := by
    induction h with
    | nil => rfl
    | cons hn _ ih => rw [allWrites, allWrites, hn, ih]
  refine h.induct (motive := fun n n' => n'.writes = n.writes) ?field ?ifThen ?ifElse ?merge ?split
    ?fragment ?sequence
  case field =>
    intro f f' hf
    rw [writes, writes, hR f f' hf]
  case ifThen =>
    intro test yes yes' _ ih
    rw [writes, writes, ih]
  case ifElse =>
    intro test yes no yes' no' _ _ ihyes ihno
    rw [writes, writes, ihyes, ihno]
  case merge =>
    intro inputs inputs' policy target _ _
    rfl
  case split =>
    intro source item item' target _ _
    rfl
  case fragment =>
    intro name
    rfl
  case sequence =>
    intro steps steps' _ ih
    rw [writes, writes, all ih]

end Alike

/-! ## Images of fields -/

mutual

/-- A tree with the image of each field in its place. -/
def mapFields (g : List Step → Field → Field) : Node → Node
  | field f => field (g [] f)
  | fragment name => fragment name
  | condition test yes none =>
    condition test (mapFields (fun steps => g (.yes :: steps)) yes) none
  | condition test yes (some no) =>
    condition test (mapFields (fun steps => g (.yes :: steps)) yes)
      (some (mapFields (fun steps => g (.no :: steps)) no))
  | merge inputs policy target =>
    merge (mapAllFields (fun i steps => g (.input i :: steps)) 0 inputs) policy target
  | split source item target =>
    split source (mapFields (fun steps => g (.item :: steps)) item) target
  | sequence steps => sequence (mapAllFields (fun i steps => g (.step i :: steps)) 0 steps)

/-- The trees of a list, of which the first has number `i`, with the images of their fields. -/
def mapAllFields (g : Nat → List Step → Field → Field) (i : Nat) : List Node → List Node
  | [] => []
  | n :: ns => mapFields (g i) n :: mapAllFields g (i + 1) ns

end

theorem getElem?_mapAllFields (g : Nat → List Step → Field → Field) (i j : Nat) (ns : List Node) :
    (mapAllFields g i ns)[j]? = ns[j]?.map (mapFields (g (i + j))) := by
  induction ns generalizing i j with
  | nil => rfl
  | cons n ns ih =>
    cases j with
    | zero => rfl
    | succ j =>
      rw [mapAllFields, List.getElem?_cons_succ, List.getElem?_cons_succ, ih, Nat.add_right_comm,
        Nat.add_assoc]

theorem child?_mapFields (g : List Step → Field → Field) (n : Node) {s : Step} (hs : s.static = s) :
    (n.mapFields g).child? s = (n.child? s).map (mapFields fun steps => g (s :: steps)) := by
  cases s with
  | itemAt k => cases hs
  | step i =>
    cases n with
    | sequence steps => rw [mapFields, child?, getElem?_mapAllFields, Nat.zero_add, child?]
    | condition test yes no => cases no <;> rfl
    | field | merge | split | fragment => rfl
  | input i =>
    cases n with
    | merge inputs policy target =>
      rw [mapFields, child?, getElem?_mapAllFields, Nat.zero_add, child?]
    | condition test yes no => cases no <;> rfl
    | field | sequence | split | fragment => rfl
  | yes | no | item =>
    cases n with
    | condition test yes no => cases no <;> rfl
    | field | merge | sequence | split | fragment => rfl

/-- What stands at the end of some steps has the images of its own fields. -/
theorem find?_mapFields (g : List Step → Field → Field) (n : Node) {steps : List Step}
    (hsteps : ∀ s ∈ steps, s.static = s) :
    (n.mapFields g).find? steps =
      (n.find? steps).map (mapFields fun rest => g (steps ++ rest)) := by
  induction steps generalizing n g with
  | nil => rfl
  | cons s rest ih =>
    obtain ⟨hs, hrest⟩ := List.forall_mem_cons.mp hsteps
    rw [find?, child?_mapFields g n hs, find?]
    cases n.child? s with
    | none => rfl
    | some child => exact ih _ child hrest

theorem find?_mapFields_field (g : List Step → Field → Field) {n : Node} {steps : List Step}
    (hsteps : ∀ s ∈ steps, s.static = s) {f : Field} (h : n.find? steps = some (.field f)) :
    (n.mapFields g).find? steps = some (.field (g steps f)) := by
  rw [find?_mapFields g n hsteps, h, Option.map_some, mapFields, List.append_nil]

/-- A field at the end of some steps is the image of one that stood there. -/
theorem exists_field_of_find?_mapFields {g : List Step → Field → Field} {n : Node}
    {steps : List Step} (hsteps : ∀ s ∈ steps, s.static = s) {f' : Field}
    (h : (n.mapFields g).find? steps = some (.field f')) :
    ∃ f, n.find? steps = some (.field f) ∧ f' = g steps f := by
  rw [find?_mapFields g n hsteps, Option.map_eq_some_iff] at h
  obtain ⟨m, hm, heq⟩ := h
  cases m with
  | field f =>
    rw [mapFields, List.append_nil] at heq
    cases heq
    exact ⟨f, hm, rfl⟩
  | condition test yes no => cases no <;> cases heq
  | merge | split | fragment | sequence => cases heq

theorem mapFields_mapFields (g h : List Step → Field → Field) (n : Node) :
    (n.mapFields g).mapFields h = n.mapFields fun steps f => h steps (g steps f) := by
  have all {ns : List Node}
      (ih : ∀ n ∈ ns, ∀ g h : List Step → Field → Field,
        (n.mapFields g).mapFields h = n.mapFields fun steps f => h steps (g steps f))
      (g h : Nat → List Step → Field → Field) (i : Nat) :
      mapAllFields h i (mapAllFields g i ns) =
        mapAllFields (fun i steps f => h i steps (g i steps f)) i ns := by
    induction ns generalizing i with
    | nil => rfl
    | cons n ns ihns =>
      rw [mapAllFields, mapAllFields, mapAllFields, ih n List.mem_cons_self,
        ihns fun m hm => ih m (List.mem_cons_of_mem _ hm)]
  induction n using induct generalizing g h with
  | field | fragment => rfl
  | ifThen test yes ih => simp only [mapFields, ih]
  | ifElse test yes no ihyes ihno => simp only [mapFields, ihyes, ihno]
  | split source item target ih => simp only [mapFields, ih]
  | merge inputs policy target ih => simp only [mapFields, all ih]
  | sequence steps ih => simp only [mapFields, all ih]

/-- A tree is alike the one that has the images of its fields. -/
theorem alike_mapFields {R : Field → Field → Prop} {g : List Step → Field → Field} {n : Node}
    (h : ∀ steps f, (∀ s ∈ steps, s.static = s) → n.find? steps = some (.field f) →
      R f (g steps f)) : Alike R n (n.mapFields g) := by
  have all {ns : List Node}
      (ih : ∀ n ∈ ns, ∀ {g : List Step → Field → Field},
        (∀ steps f, (∀ s ∈ steps, s.static = s) → n.find? steps = some (.field f) →
          R f (g steps f)) → Alike R n (n.mapFields g))
      {g : Nat → List Step → Field → Field} {i : Nat}
      (h : ∀ j n, ns[j]? = some n → ∀ steps f, (∀ s ∈ steps, s.static = s) →
        n.find? steps = some (.field f) → R f (g (i + j) steps f)) :
      List.Forall₂ (Alike R) ns (mapAllFields g i ns) := by
    induction ns generalizing i with
    | nil => exact .nil
    | cons n ns ihns =>
      refine .cons (ih n List.mem_cons_self (h 0 n rfl)) ?_
      refine ihns (fun m hm => ih m (List.mem_cons_of_mem _ hm)) fun j m hm => ?_
      have hj := h (j + 1) m hm
      rwa [← Nat.add_assoc, Nat.add_right_comm] at hj
  have down {n child : Node} {g : List Step → Field → Field} {s : Step} (hs : s.static = s)
      (hchild : n.child? s = some child)
      (h : ∀ steps f, (∀ s ∈ steps, s.static = s) → n.find? steps = some (.field f) →
        R f (g steps f)) (steps : List Step) (f : Field) (hsteps : ∀ s ∈ steps, s.static = s)
      (hf : child.find? steps = some (.field f)) : R f (g (s :: steps) f) := by
    refine h (s :: steps) f (List.forall_mem_cons.mpr ⟨hs, hsteps⟩) ?_
    rw [find?, hchild, Option.bind_some, hf]
  induction n using induct generalizing g with
  | field f => exact .field (h [] f (fun s hs => absurd hs List.not_mem_nil) rfl)
  | fragment name => exact .fragment
  | ifThen test yes ih => exact .ifThen (ih (down rfl rfl h))
  | ifElse test yes no ihyes ihno => exact .ifElse (ihyes (down rfl rfl h)) (ihno (down rfl rfl h))
  | split source item target ih => exact .split (ih (down rfl rfl h))
  | merge inputs policy target ih =>
    refine .merge (all ih fun j n hn => ?_)
    rw [Nat.zero_add]
    exact down (n := .merge inputs policy target) (s := .input j) rfl hn h
  | sequence steps ih =>
    refine .sequence (all ih fun j n hn => ?_)
    rw [Nat.zero_add]
    exact down (n := .sequence steps) (s := .step j) rfl hn h

theorem mapFields_eq_self {g : List Step → Field → Field} {n : Node}
    (hg : ∀ steps f, (∀ s ∈ steps, s.static = s) → n.find? steps = some (.field f) →
      g steps f = f) : n.mapFields g = n := by
  have halike : Alike (fun f f' => f' = f) n (n.mapFields g) := alike_mapFields hg
  exact halike.eq

/-- Where a field at the end of some steps is replaced, trees to which other steps lead stay as they
are. -/
theorem mapFields_other {s s' : Step} (hs : s ≠ s') (rest : List Step) (k : Field → Field)
    (n : Node) : n.mapFields (fun at_ f => if s :: at_ = s' :: rest then k f else f) = n :=
  mapFields_eq_self fun _ _ _ _ => if_neg fun heq => hs (List.cons.inj heq).1

/-- Where a field at the end of some steps is replaced, the trees of a list stay as they are but for
the one to which the first of the steps leads. -/
theorem modify_eq_mapAllFields {ns : List Node} {i : Nat} {child : Node} {step : Nat → Step}
    {rest : List Step} {k : Field → Field} {h : Node → Node} (hstep : Function.Injective step)
    (hchild : ns[i]? = some child)
    (hmap : h child =
      child.mapFields fun at_ f => if step i :: at_ = step i :: rest then k f else f) :
    ns.modify i h =
      mapAllFields (fun j at_ f => if step j :: at_ = step i :: rest then k f else f) 0 ns := by
  refine List.ext_getElem? fun j => ?_
  rw [List.getElem?_modify, getElem?_mapAllFields, Nat.zero_add]
  split
  · next hij =>
    subst hij
    rw [hchild]
    exact congrArg some hmap
  · next hij =>
    have hne : step j ≠ step i := fun heq => hij (hstep heq).symm
    cases ns[j]? with
    | none => rfl
    | some m => exact congrArg some (mapFields_other hne rest k m).symm

/-- Replacing a field at the end of some steps changes no other field. -/
theorem mapAt_eq_mapFields {n : Node} {steps : List Step} (hsteps : ∀ s ∈ steps, s.static = s)
    {f : Field} (h : n.find? steps = some (.field f)) (k : Field → Field) :
    n.mapAt (fun _ => .field (k f)) steps =
      n.mapFields fun at_ f => if at_ = steps then k f else f := by
  induction steps generalizing n with
  | nil =>
    cases h
    rw [mapAt, mapFields, if_pos rfl]
  | cons s rest ih =>
    obtain ⟨hs, hrest⟩ := List.forall_mem_cons.mp hsteps
    rw [find?, Option.bind_eq_some_iff] at h
    obtain ⟨child, hchild, hf⟩ := h
    have hmap : child.mapAt (fun _ => .field (k f)) rest =
        child.mapFields fun at_ f => if s :: at_ = s :: rest then k f else f := by
      rw [ih hrest hf]
      simp only [List.cons.injEq, true_and]
    cases n with
    | field | fragment => cases s <;> cases hchild
    | sequence steps =>
      cases s with
      | step i =>
        rw [mapAt, mapChild, mapFields,
          modify_eq_mapAllFields (fun _ _ => Step.step.inj) hchild hmap]
      | input | yes | no | item | itemAt => cases hchild
    | merge inputs policy target =>
      cases s with
      | input i =>
        rw [mapAt, mapChild, mapFields,
          modify_eq_mapAllFields (fun _ _ => Step.input.inj) hchild hmap]
      | step | yes | no | item | itemAt => cases hchild
    | split source item target =>
      cases s with
      | item =>
        cases hchild
        rw [mapAt, mapChild, mapFields, hmap]
      | itemAt => cases hs
      | step | input | yes | no => cases hchild
    | condition test yes no =>
      cases s with
      | yes =>
        cases hchild
        cases no with
        | none => rw [mapAt, mapChild, mapFields, hmap]
        | some no =>
          have hne : Step.no ≠ .yes := nofun
          rw [mapAt, mapChild, mapFields, hmap, mapFields_other hne]
      | no =>
        cases hchild
        have hne : Step.yes ≠ .no := nofun
        rw [mapAt, mapChild, mapFields, Option.map_some, hmap, mapFields_other hne]
      | step | input | item | itemAt => cases hchild

/-! ## Walks and steps -/

/-- A walk meets each node at the end of the steps that lead down to it. -/
theorem find?_of_mem_placed {n m : Node} {top place : Place} {k splits : Nat}
    (h : (place, splits, m) ∈ placed top k n) :
    ∃ steps, (∀ s ∈ steps, s.static = s) ∧ place = top.below steps ∧ n.find? steps = some m := by
  have down {n child : Node} {top : Place} {s : Step} (hs : s.static = s)
      (hchild : n.child? s = some child)
      (h : ∃ steps, (∀ s ∈ steps, s.static = s) ∧ place = (top.down s).below steps ∧
        child.find? steps = some m) :
      ∃ steps, (∀ s ∈ steps, s.static = s) ∧ place = top.below steps ∧ n.find? steps = some m := by
    obtain ⟨steps, hsteps, rfl, hm⟩ := h
    refine ⟨s :: steps, List.forall_mem_cons.mpr ⟨hs, hsteps⟩, Place.below_down .., ?_⟩
    rw [find?, hchild, Option.bind_some, hm]
  have here {n : Node} {top : Place} {k : Nat} (h : (place, splits, m) = (top, k, n)) :
      ∃ steps, (∀ s ∈ steps, s.static = s) ∧ place = top.below steps ∧ n.find? steps = some m := by
    cases h
    exact ⟨[], fun s hs => absurd hs List.not_mem_nil, Place.below_nil.symm, rfl⟩
  have all {ns : List Node} {top : Place} {k : Nat} {n : Node} {step : Nat → Step}
      (hstep : ∀ i, (step i).static = step i)
      (hchild : ∀ (i : Nat) (child : Node), ns[i]? = some child → n.child? (step i) = some child)
      (ih : ∀ n ∈ ns, ∀ {top : Place} {k : Nat}, (place, splits, m) ∈ placed top k n →
        ∃ steps, (∀ s ∈ steps, s.static = s) ∧ place = top.below steps ∧ n.find? steps = some m)
      (h : (place, splits, m) ∈ placedAll (fun i => top.down (step i)) k 0 ns) :
      ∃ steps, (∀ s ∈ steps, s.static = s) ∧ place = top.below steps ∧ n.find? steps = some m := by
    obtain ⟨i, child, hi, hmem⟩ := mem_placedAll.mp h
    rw [Nat.zero_add] at hmem
    exact down (hstep i) (hchild i child hi) (ih child (List.mem_of_getElem? hi) hmem)
  induction n using induct generalizing top k with
  | field | fragment => exact here (List.mem_singleton.mp h)
  | ifThen test yes ih =>
    rcases List.mem_cons.mp h with h | h
    · exact here h
    · exact down (s := .yes) rfl rfl (ih h)
  | ifElse test yes no ihyes ihno =>
    rcases List.mem_cons.mp h with h | h
    · exact here h
    · rcases List.mem_append.mp h with h | h
      · exact down (s := .yes) rfl rfl (ihyes h)
      · exact down (s := .no) rfl rfl (ihno h)
  | split source item target ih =>
    rcases List.mem_cons.mp h with h | h
    · exact here h
    · exact down (s := .item) rfl rfl (ih h)
  | merge inputs policy target ih =>
    rcases List.mem_cons.mp h with h | h
    · exact here h
    · exact all (fun _ => rfl) (fun _ _ hi => hi) ih h
  | sequence steps ih =>
    rcases List.mem_cons.mp h with h | h
    · exact here h
    · exact all (fun _ => rfl) (fun _ _ hi => hi) ih h

end Node

end Remap.Rule
