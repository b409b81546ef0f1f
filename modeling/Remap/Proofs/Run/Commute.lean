import Remap.Proofs.Reordered
import Remap.Proofs.Results
import Remap.Proofs.Run.Growth
import Remap.Proofs.Run.Union

/-!
# Writes of atoms commute

Different orders of some writes go through different outputs: containers are made by whichever write
comes first, and arrays are made longer step by step. The main statement is that for writes of atoms
the order makes no difference: no write meets a conflict in the one order if none does in the other,
and then the two outputs are equal up to the order of keys (`unopposed_perm`).

A write of an atom is described without its conflict (`store?`). Two of them commute, and they
respect the order of keys, so that a list of them may be put in any order.
-/

namespace Remap.Run.Output

open Value (Reordered)

/-! ## Atoms -/

/-- The entries of a slot as an object, which is made where there is `null`. -/
def entries? (slot : Value) : Option (List (String × Value)) :=
  (if slot.isNull then .object [] else slot).fields?

/-- The items of a slot as an array, which is made where the slot is vacant. -/
def items? (slot : Value) : Option (List Value) :=
  (if slot.isVacant then .array [] else slot).items?

/-- A slot with an atom put at the end of segments below it, if nothing stands in the way. -/
def store? (atom : Value) : List Segment → Value → Option Value
  | [], slot => if slot.isVacant then some atom else none
  | .key name :: rest, slot =>
    (entries? slot).bind fun fields =>
      (store? atom rest ((Entries.get? name fields).getD .null)).map fun new =>
        .object (Entries.put name new fields)
  | .index i :: rest, slot =>
    (items? slot).bind fun items =>
      (store? atom rest ((items[i]?).getD .null)).map fun new => .array ((padTo i items).set i new)
  | .wildcard :: _, _ => none

/-- The output of a write without a conflict. -/
def tree? (written : Written) : Option Value :=
  if written.conflict.isNone then some written.tree else none

theorem tree?_map (written : Written) (f : Value → Value) :
    tree? ⟨f written.tree, written.conflict⟩ = (tree? written).map f := by
  unfold tree?
  split <;> rfl

theorem tree?_writeAt {atom : Value} (hatom : atom.isAtom = true) (walked segments : List Segment)
    (slot : Value) : tree? (writeAt atom walked segments slot) = store? atom segments slot := by
  induction segments generalizing walked slot with
  | nil =>
    rw [writeAt, store?]
    unfold place
    split
    · rfl
    · split
      · cases hatom
      · rfl
  | cons segment rest ih =>
    cases segment with
    | wildcard => rfl
    | key name =>
      rw [writeAt, store?, entries?]
      generalize (if slot.isNull then Value.object [] else slot) = slot
      split
      · next fields =>
        rw [Value.fields?, Option.bind_some, ← ih (walked ++ [.key name])]
        exact tree?_map _ fun new => .object (Entries.put name new fields)
      · next hslot => cases slot <;> first | rfl | exact absurd rfl (hslot _)
    | index i =>
      rw [writeAt, store?, items?]
      generalize (if slot.isVacant then Value.array [] else slot) = slot
      split
      · next items =>
        rw [Value.items?, Option.bind_some, ← ih (walked ++ [.index i]), ← getD_getElem?_padTo]
        exact tree?_map _ fun new => .array ((padTo i items).set i new)
      · next hslot => cases slot <;> first | rfl | exact absurd rfl (hslot _)

/-! ## What an atom meets -/

variable {a b slot : Value}

theorem entries?_object (fields : List (String × Value)) :
    entries? (.object fields) = some fields := rfl

theorem items?_array (items : List Value) : items? (.array items) = some items := rfl

/-- Nothing is put below an atom, or in its place. -/
theorem store?_atom (ha : a.isAtom = true) (segments : List Segment) :
    store? b segments a = none := by
  cases a with
  | null | array | object => cases ha
  | bool | number | string =>
    cases segments with
    | nil => rfl
    | cons segment rest => cases segment <;> rfl

/-- A slot is not vacant any more once an atom is put at or below it. -/
theorem isVacant_of_store? (ha : a.isAtom = true) {segments : List Segment} {new : Value}
    (h : store? a segments slot = some new) : new.isVacant = false := by
  cases segments with
  | nil =>
    rw [store?] at h
    split at h
    · cases h
      cases a <;> first | rfl | cases ha
    · cases h
  | cons segment rest =>
    cases segment with
    | wildcard => cases h
    | key name =>
      obtain ⟨fields, -, h⟩ := Option.bind_eq_some_iff.mp h
      obtain ⟨inner, -, rfl⟩ := Option.map_eq_some_iff.mp h
      cases hput : Entries.put name inner fields with
      | nil => exact absurd hput Entries.put_ne_nil
      | cons => rfl
    | index i =>
      obtain ⟨items, -, h⟩ := Option.bind_eq_some_iff.mp h
      obtain ⟨inner, -, rfl⟩ := Option.map_eq_some_iff.mp h
      rfl

/-! ## The order of keys -/

theorem rel_entries? {s t : Value} (h : s.Reordered t) :
    Option.Rel (fun xs ys => (Value.object xs).Reordered (.object ys))
      (entries? s) (entries? t) := by
  cases h with
  | scalar h =>
    cases s with
    | null => exact .some (.object .nil (.refl _) nofun)
    | bool | number | string => exact .none
    | array | object => cases h
  | array => exact .none
  | object hkeys hperm h => exact .some (.object hkeys hperm h)

theorem rel_items? {s t : Value} (h : s.Reordered t) :
    Option.Rel (fun xs ys => (Value.array xs).Reordered (.array ys)) (items? s) (items? t) := by
  cases hvacant : s.isVacant with
  | true =>
    rw [items?, items?, ← h.isVacant_eq, hvacant]
    exact .some (.array rfl fun _ _ _ hx => nomatch hx)
  | false =>
    rw [items?, items?, ← h.isVacant_eq, hvacant]
    cases h with
    | scalar h =>
      cases s with
      | null | bool | number | string => exact .none
      | array | object => cases h
    | array hlength h => exact .some (.array hlength h)
    | object => exact .none

theorem reordered_padTo {xs ys : List Value} (h : (Value.array xs).Reordered (.array ys))
    (i : Nat) :
    (Value.array (padTo i xs)).Reordered (.array (padTo i ys)) := by
  rw [padTo, padTo, ← h.length_eq]
  refine h.append (Value.Distinct.array fun v hv => ?_).reordered
  rw [List.eq_of_mem_replicate hv]
  exact .scalar rfl

/-- An atom is put into equal slots with equal results, up to the order of keys. -/
theorem rel_store? (ha : a.isAtom = true) (segments : List Segment) {s t : Value}
    (h : s.Reordered t) : Option.Rel Reordered (store? a segments s) (store? a segments t) := by
  induction segments generalizing s t with
  | nil =>
    rw [store?, store?, h.isVacant_eq]
    split
    · exact .some (.scalar (Bool.and_eq_true_iff.mp ha).1)
    · exact .none
  | cons segment rest ih =>
    cases segment with
    | wildcard => exact .none
    | key name =>
      rw [store?, store?]
      exact rel_bind (rel_entries? h) fun xs ys hxs =>
        rel_map (ih (hxs.getD_get? name)) fun x y hxy => hxs.put name hxy
    | index i =>
      rw [store?, store?]
      exact rel_bind (rel_items? h) fun xs ys hxs =>
        rel_map (ih (hxs.getD_getElem? i)) fun x y hxy => (reordered_padTo hxs i).set i hxy

theorem distinct_entries? (hslot : slot.Distinct) {fields : List (String × Value)}
    (h : entries? slot = some fields) : (Value.object fields).Distinct := by
  have hrel := rel_entries? hslot.reordered
  rw [h, Option.rel_some_some] at hrel
  exact hrel.left

theorem distinct_items? (hslot : slot.Distinct) {items : List Value}
    (h : items? slot = some items) :
    (Value.array items).Distinct := by
  have hrel := rel_items? hslot.reordered
  rw [h, Option.rel_some_some] at hrel
  exact hrel.left

theorem distinct_of_store? (ha : a.isAtom = true) {segments : List Segment} (hslot : slot.Distinct)
    {new : Value} (h : store? a segments slot = some new) : new.Distinct := by
  have hrel := rel_store? ha segments hslot.reordered
  rw [h, Option.rel_some_some] at hrel
  exact hrel.left

/-! ## Items in either order -/

/-- Items may be set at two indices in either order. -/
theorem set_padTo_comm {i j : Nat} (h : i ≠ j) (items : List Value) (x y : Value) :
    (padTo j ((padTo i items).set i x)).set j y = (padTo i ((padTo j items).set j y)).set i x := by
  refine List.ext_getElem? fun k => ?_
  by_cases hi : i = k
  · subst hi
    rw [getElem?_set_padTo_self, getElem?_set_padTo_of_ne h.symm, getElem?_set_padTo_self, if_pos]
    rw [length_set_padTo]
    omega
  · by_cases hj : j = k
    · subst hj
      rw [getElem?_set_padTo_self, getElem?_set_padTo_of_ne h, getElem?_set_padTo_self, if_pos]
      rw [length_set_padTo]
      omega
    · rw [getElem?_set_padTo_of_ne hj, getElem?_set_padTo_of_ne hi, getElem?_set_padTo_of_ne hi,
        getElem?_set_padTo_of_ne hj, length_set_padTo, length_set_padTo]
      grind

/-! ## Two atoms -/

/-- What is put into a slot as a whole leaves no way below it. -/
theorem store?_nil_bind (ha : a.isAtom = true) (segments : List Segment) :
    (store? a [] slot).bind (store? b segments) = none := by
  rw [store?]
  split
  · exact store?_atom ha segments
  · rfl

theorem store?_bind_nil (ha : a.isAtom = true) (segments : List Segment) :
    (store? a segments slot).bind (store? b []) = none := by
  cases h : store? a segments slot with
  | none => rfl
  | some new =>
    rw [Option.bind_some, store?, isVacant_of_store? ha h]
    rfl

/-- An object with an entry is no array, and an array is no object. -/
theorem store?_key_bind_index (name : String) (i : Nat) (p q : List Segment) :
    (store? a (.key name :: p) slot).bind (store? b (.index i :: q)) = none := by
  refine Option.bind_eq_none_iff.mpr fun new h => ?_
  obtain ⟨fields, -, h⟩ := Option.bind_eq_some_iff.mp h
  obtain ⟨inner, -, rfl⟩ := Option.map_eq_some_iff.mp h
  cases hput : Entries.put name inner fields with
  | nil => exact absurd hput Entries.put_ne_nil
  | cons => rfl

theorem store?_index_bind_key (i : Nat) (name : String) (p q : List Segment) :
    (store? a (.index i :: p) slot).bind (store? b (.key name :: q)) = none := by
  refine Option.bind_eq_none_iff.mpr fun new h => ?_
  obtain ⟨items, -, h⟩ := Option.bind_eq_some_iff.mp h
  obtain ⟨inner, -, rfl⟩ := Option.map_eq_some_iff.mp h
  rfl

theorem store?_key_bind_self {fields : List (String × Value)} (h : entries? slot = some fields)
    (name : String) (p q : List Segment) :
    (store? a (.key name :: p) slot).bind (store? b (.key name :: q)) =
      ((store? a p ((Entries.get? name fields).getD .null)).bind (store? b q)).map fun new =>
        .object (Entries.put name new fields) := by
  rw [store?, h, Option.bind_some]
  cases store? a p ((Entries.get? name fields).getD .null) with
  | none => rfl
  | some x =>
    simp only [Option.map_some, Option.bind_some, store?, entries?_object, Entries.get?_put_self,
      Option.getD_some, Entries.put_put]

theorem store?_key_bind_of_ne {fields : List (String × Value)} (h : entries? slot = some fields)
    {m n : String} (hne : m ≠ n) (p q : List Segment) :
    (store? a (.key m :: p) slot).bind (store? b (.key n :: q)) =
      (store? a p ((Entries.get? m fields).getD .null)).bind fun x =>
        (store? b q ((Entries.get? n fields).getD .null)).map fun y =>
          .object (Entries.put n y (Entries.put m x fields)) := by
  rw [store?, h, Option.bind_some]
  cases store? a p ((Entries.get? m fields).getD .null) with
  | none => rfl
  | some x =>
    simp only [Option.map_some, Option.bind_some, store?, entries?_object,
      Entries.get?_put_of_ne hne.symm]

theorem store?_index_bind_self {items : List Value} (h : items? slot = some items)
    (i : Nat) (p q : List Segment) :
    (store? a (.index i :: p) slot).bind (store? b (.index i :: q)) =
      ((store? a p ((items[i]?).getD .null)).bind (store? b q)).map fun new =>
        .array ((padTo i items).set i new) := by
  rw [store?, h, Option.bind_some]
  cases store? a p ((items[i]?).getD .null) with
  | none => rfl
  | some x =>
    have hpad : padTo i ((padTo i items).set i x) = (padTo i items).set i x :=
      padTo_of_lt (by rw [length_set_padTo]; omega)
    simp only [Option.map_some, Option.bind_some, store?, items?_array, getElem?_set_padTo_self,
      Option.getD_some, hpad, List.set_set]

theorem store?_index_bind_of_ne {items : List Value} (h : items? slot = some items)
    {i j : Nat} (hne : i ≠ j) (p q : List Segment) :
    (store? a (.index i :: p) slot).bind (store? b (.index j :: q)) =
      (store? a p ((items[i]?).getD .null)).bind fun x =>
        (store? b q ((items[j]?).getD .null)).map fun y =>
          .array ((padTo j ((padTo i items).set i x)).set j y) := by
  rw [store?, h, Option.bind_some]
  cases store? a p ((items[i]?).getD .null) with
  | none => rfl
  | some x =>
    have hget : (((padTo i items).set i x)[j]?).getD .null = (items[j]?).getD .null := by
      rw [getElem?_set_padTo_of_ne hne]
      split
      · rfl
      · next hj =>
        rw [List.getElem?_eq_none (Nat.le_of_not_lt hj)]
        split <;> rfl
    simp only [Option.map_some, Option.bind_some, store?, items?_array, hget]

theorem store?_bind_wildcard (found : Option Value) (rest : List Segment) :
    found.bind (store? a (.wildcard :: rest)) = none :=
  Option.bind_eq_none_iff.mpr fun _ _ => rfl

/-- Whether two atoms may be put at the ends of two lists of segments in either order. -/
def StoresCommute (a b : Value) (p q : List Segment) : Prop :=
  ∀ slot : Value, slot.Distinct →
    Option.Rel Reordered ((store? a p slot).bind (store? b q)) ((store? b q slot).bind (store? a p))

theorem commute_key (ha : a.isAtom = true) (hb : b.isAtom = true) {p q : List Segment}
    (h : StoresCommute a b p q) (m n : String) : StoresCommute a b (.key m :: p) (.key n :: q) := by
  intro slot hslot
  cases hfields : entries? slot with
  | none =>
    rw [store?, store?, hfields]
    exact .none
  | some fields =>
    have hdistinct := distinct_entries? hslot hfields
    have hinner (name : String) : ((Entries.get? name fields).getD .null).Distinct :=
      (hdistinct.reordered.getD_get? name).left
    by_cases hne : m = n
    · subst hne
      rw [store?_key_bind_self hfields, store?_key_bind_self hfields]
      exact rel_map (h _ (hinner m)) fun x y hxy => hdistinct.reordered.put m hxy
    · rw [store?_key_bind_of_ne hfields hne, store?_key_bind_of_ne hfields (Ne.symm hne)]
      exact rel_bind_comm fun x y hx hy => Reordered.put_comm hne hdistinct
        (distinct_of_store? ha (hinner m) hx) (distinct_of_store? hb (hinner n) hy)

theorem commute_index (ha : a.isAtom = true) (hb : b.isAtom = true) {p q : List Segment}
    (h : StoresCommute a b p q) (i j : Nat) :
    StoresCommute a b (.index i :: p) (.index j :: q) := by
  intro slot hslot
  cases hitems : items? slot with
  | none =>
    rw [store?, store?, hitems]
    exact .none
  | some items =>
    have hdistinct := distinct_items? hslot hitems
    have hinner (k : Nat) : ((items[k]?).getD .null).Distinct :=
      (hdistinct.reordered.getD_getElem? k).left
    have hpadded (k : Nat) := reordered_padTo hdistinct.reordered k
    by_cases hne : i = j
    · subst hne
      rw [store?_index_bind_self hitems, store?_index_bind_self hitems]
      exact rel_map (h _ (hinner i)) fun x y hxy => (hpadded i).set i hxy
    · rw [store?_index_bind_of_ne hitems hne, store?_index_bind_of_ne hitems (Ne.symm hne)]
      refine rel_bind_comm fun x y hx hy => ?_
      have hxx := (distinct_of_store? ha (hinner i) hx).reordered
      have hyy := (distinct_of_store? hb (hinner j) hy).reordered
      rw [← set_padTo_comm hne]
      exact (reordered_padTo ((hpadded i).set i hxx) j).set j hyy

/-- Two atoms may be put into a value in either order. -/
theorem commute_store? (ha : a.isAtom = true) (hb : b.isAtom = true) (p q : List Segment) :
    StoresCommute a b p q := by
  induction p generalizing q with
  | nil =>
    -- One target is a part of the other, or the same: the later of the two always fails.
    intro slot _
    rw [store?_nil_bind ha, store?_bind_nil hb]
    exact .none
  | cons s p ih =>
    cases q with
    | nil =>
      intro slot _
      rw [store?_nil_bind hb, store?_bind_nil ha]
      exact .none
    | cons t q =>
      -- The first segments are of one kind, or the later of the two meets the wrong container.
      match s, t with
      | .key m, .key n => exact commute_key ha hb (ih q) m n
      | .index i, .index j => exact commute_index ha hb (ih q) i j
      | .key m, .index j =>
        intro slot _
        rw [store?_key_bind_index, store?_index_bind_key]
        exact .none
      | .index i, .key n =>
        intro slot _
        rw [store?_key_bind_index, store?_index_bind_key]
        exact .none
      | .wildcard, _ =>
        intro slot _
        rw [store?_bind_wildcard]
        exact .none
      | _, .wildcard =>
        intro slot _
        rw [store?_bind_wildcard]
        exact .none

/-! ## Lists of atoms -/

/-- A value with atoms put into it, one after the other, if nothing stands in the way of any. -/
def storeAll? : List (TargetPath × Value) → Value → Option Value
  | [], v => some v
  | w :: ws, v => (store? w.2 w.1.segments v).bind (storeAll? ws)

variable {ws ws' : List (TargetPath × Value)} {s t : Value}

theorem rel_storeAll? (hatoms : ∀ w ∈ ws, w.2.isAtom = true) (h : s.Reordered t) :
    Option.Rel Reordered (storeAll? ws s) (storeAll? ws t) := by
  induction ws generalizing s t with
  | nil => exact .some h
  | cons w ws ih =>
    obtain ⟨hw, hws⟩ := List.forall_mem_cons.mp hatoms
    exact rel_bind (rel_store? hw _ h) fun x y hxy => ih hws hxy

/-- Atoms may be put into a value in any order. -/
theorem rel_storeAll?_of_perm (hperm : ws.Perm ws') (hatoms : ∀ w ∈ ws, w.2.isAtom = true)
    (h : s.Reordered t) : Option.Rel Reordered (storeAll? ws s) (storeAll? ws' t) := by
  induction hperm generalizing s t with
  | nil => exact .some h
  | cons w _ ih =>
    obtain ⟨hw, hws⟩ := List.forall_mem_cons.mp hatoms
    exact rel_bind (rel_store? hw _ h) fun x y hxy => ih hws hxy
  | swap w v ws =>
    obtain ⟨hv, hatoms⟩ := List.forall_mem_cons.mp hatoms
    obtain ⟨hw, hws⟩ := List.forall_mem_cons.mp hatoms
    have hcomm := commute_store? hv hw v.1.segments w.1.segments s h.left
    have hswapped : Option.Rel Reordered
        ((store? w.2 w.1.segments s).bind (store? v.2 v.1.segments))
        ((store? w.2 w.1.segments t).bind (store? v.2 v.1.segments)) :=
      rel_bind (rel_store? hw _ h) fun x y hxy => rel_store? hv _ hxy
    -- The two are exchanged on the one side, and the rest goes on from values equal up to order.
    have hboth := rel_bind (rel_trans hcomm hswapped .trans) fun x y hxy => rel_storeAll? hws hxy
    rwa [Option.bind_assoc, Option.bind_assoc] at hboth
  | trans hfirst _ ih ih' =>
    -- The list in between starts from the same value as the first one.
    have hatoms' := fun w hw => hatoms w (hfirst.mem_iff.mpr hw)
    exact rel_trans (ih hatoms h.left.reordered) (ih' hatoms' h) .trans

end Remap.Run.Output

namespace Remap.Run.Execution

open Output (store? storeAll? tree? rel_storeAll?_of_perm)

theorem storeAll?_eq_some_iff {ws : List (TargetPath × Value)}
    (hatoms : ∀ w ∈ ws, w.2.isAtom = true) {before after : Value} :
    storeAll? ws before = some after ↔ Unopposed before ws ∧ ws.foldl put before = after := by
  induction ws generalizing before with
  | nil => exact Option.some_inj.trans (iff_of_eq (true_and _)).symm
  | cons w ws ih =>
    obtain ⟨hw, hws⟩ := List.forall_mem_cons.mp hatoms
    have htree : store? w.2 w.1.segments before = tree? (Output.write before w.1 w.2) :=
      (Output.tree?_writeAt hw [] w.1.segments before).symm
    rw [storeAll?, htree, tree?, Unopposed, List.foldl_cons]
    cases (Output.write before w.1 w.2).conflict with
    | none => exact (ih hws).trans (and_congr_left fun _ => (and_iff_right rfl).symm)
    | some conflict => exact ⟨nofun, fun h => nomatch h.1.1⟩

theorem not_unopposed {ws : List (TargetPath × Value)} (hatoms : ∀ w ∈ ws, w.2.isAtom = true)
    {before : Value} (h : storeAll? ws before = none) : ¬Unopposed before ws := fun hws => by
  rw [(storeAll?_eq_some_iff hatoms).mpr ⟨hws, rfl⟩] at h
  cases h

/-- The order of writes of atoms makes no difference. No write meets a conflict in one order if
none does in the other, and then the outputs are equal up to the order of keys. -/
theorem unopposed_perm {start : Value} (hstart : start.Distinct)
    {ws ws' : List (TargetPath × Value)} (hatoms : ∀ w ∈ ws, w.2.isAtom = true)
    (hperm : ws.Perm ws') :
    (Unopposed start ws ↔ Unopposed start ws') ∧
      (Unopposed start ws → (ws.foldl put start).Reordered (ws'.foldl put start)) := by
  have hatoms' := fun w hw => hatoms w (hperm.mem_iff.mpr hw)
  have hrel := rel_storeAll?_of_perm hperm hatoms hstart.reordered
  generalize hleft : storeAll? ws start = left, hright : storeAll? ws' start = right at hrel
  cases hrel with
  | none =>
    have hws : ¬Unopposed start ws := not_unopposed hatoms hleft
    exact ⟨iff_of_false hws (not_unopposed hatoms' hright), fun h => absurd h hws⟩
  | some hsame =>
    obtain ⟨hws, rfl⟩ := (storeAll?_eq_some_iff hatoms).mp hleft
    obtain ⟨hws', rfl⟩ := (storeAll?_eq_some_iff hatoms').mp hright
    exact ⟨iff_of_true hws hws', fun _ => hsame⟩

/-- Writes into an array from behind, between them one to an object. -/
def scattered : List (TargetPath × Value) :=
  [(⟨[.key "a", .index 1]⟩, .string "1"), (⟨[.key "b", .key "c"]⟩, .string "2"),
    (⟨[.key "a", .index 0, .key "d"]⟩, .bool true)]

/-- The writes that fill an array from behind may as well fill it from the front. -/
theorem unopposed_perm_scattered :
    Unopposed (.object []) scattered.reverse ∧
      (scattered.foldl put (.object [])).Reordered (scattered.reverse.foldl put (.object [])) := by
  have hunopposed : Unopposed (.object []) scattered := ⟨by cbv, by cbv, by cbv, trivial⟩
  have hstart : (Value.object []).Distinct := .object .nil (List.forall_mem_nil _)
  have hatoms : ∀ w ∈ scattered, w.2.isAtom = true := by decide
  obtain ⟨hiff, hsame⟩ := unopposed_perm hstart hatoms (List.reverse_perm scattered).symm
  exact ⟨hiff.mp hunopposed, hsame hunopposed⟩

end Remap.Run.Execution
