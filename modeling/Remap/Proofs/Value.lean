import Mathlib.Data.List.Forall2
import Remap.Proofs.Entries
import Remap.Value

/-!
# Payload values compared

Objects have unique keys throughout a value. Two values agree if they are the same and their keys
come in the same order.
-/

namespace Remap.Value

/-- Whether no object in a value has a key twice. -/
inductive Distinct : Value → Prop
  | scalar {v : Value} (h : v.isScalar) : Distinct v
  | array {items : List Value} (h : ∀ v ∈ items, Distinct v) : Distinct (.array items)
  | object {fields : List (String × Value)} (hkeys : (Entries.keys fields).Nodup)
      (h : ∀ e ∈ fields, Distinct e.2) : Distinct (.object fields)

namespace Distinct

variable {items : List Value} {fields : List (String × Value)}

theorem of_mem_items (h : Distinct (.array items)) {v : Value} (hv : v ∈ items) : Distinct v := by
  cases h with
  | scalar h => nomatch h
  | array h => exact h v hv

theorem keys_nodup (h : Distinct (.object fields)) : (Entries.keys fields).Nodup := by
  cases h with
  | scalar h => nomatch h
  | object h _ => exact h

theorem of_mem_fields (h : Distinct (.object fields)) {e : String × Value} (he : e ∈ fields) :
    Distinct e.2 := by
  cases h with
  | scalar h => nomatch h
  | object _ h => exact h e he

theorem single {name : String} {v : Value} (h : v.Distinct) :
    (Value.object [(name, v)]).Distinct :=
  .object (List.pairwise_singleton _ name) (List.forall_mem_singleton.mpr h)

end Distinct

/-- Induction over what objects hold. -/
theorem induct_fields {motive : Value → Prop}
    (step : ∀ v, (∀ fields, v = .object fields → ∀ e ∈ fields, motive e.2) → motive v)
    (v : Value) : motive v := by
  refine Value.rec (motive_1 := motive) (motive_2 := fun _ => True)
    (motive_3 := fun fields => ∀ e ∈ fields, motive e.2) (motive_4 := fun e => motive e.2)
    (step _ nofun) (fun _ => step _ nofun) (fun _ => step _ nofun) (fun _ => step _ nofun)
    (fun _ _ => step _ nofun) (fun fields ih => ?object) trivial (fun _ _ _ _ => trivial)
    (List.forall_mem_nil _) (fun _ _ ih ihs => List.forall_mem_cons.mpr ⟨ih, ihs⟩)
    (fun _ _ ih => ih) v
  case object =>
    apply step
    intro others heq
    cases heq
    exact ih

theorem exists_of_kind_object {v : Value} (h : v.kind = .object) :
    ∃ fields, v = .object fields := by
  cases v with
  | object fields => exact ⟨fields, rfl⟩
  | null | bool | number | string | array => cases h

mutual

/-- Whether two values are the same with their keys in the same order. As in `same`, numbers compare
as doubles. -/
def agrees : Value → Value → Bool
  | null, null => true
  | bool a, bool b => a == b
  | number a, number b => a == b
  | string a, string b => a == b
  | array xs, array ys => agreeItems xs ys
  | object xs, object ys => agreeFields xs ys
  | _, _ => false

/-- Whether two lists hold values that agree in the same order. -/
def agreeItems : List Value → List Value → Bool
  | [], [] => true
  | x :: xs, y :: ys => agrees x y && agreeItems xs ys
  | _, _ => false

/-- Whether two lists of entries have the same keys in the same order, with values that agree. -/
def agreeFields : List (String × Value) → List (String × Value) → Bool
  | [], [] => true
  | (k, x) :: xs, (l, y) :: ys => k == l && agrees x y && agreeFields xs ys
  | _, _ => false

end

section Agrees

variable {xs ys xs' ys' : List (String × Value)}

theorem keys_of_agreeFields (h : agreeFields xs ys = true) : Entries.keys xs = Entries.keys ys := by
  induction xs generalizing ys with
  | nil =>
    cases ys with
    | nil => rfl
    | cons y ys => simp [agreeFields] at h
  | cons x xs ih =>
    cases ys with
    | nil => simp [agreeFields] at h
    | cons y ys =>
      rw [agreeFields, Bool.and_eq_true, Bool.and_eq_true, beq_iff_eq] at h
      exact List.cons_eq_cons.mpr ⟨h.1.1, ih h.2⟩

theorem agreeFields_length (h : agreeFields xs ys = true) : xs.length = ys.length := by
  have hlength := congrArg List.length (keys_of_agreeFields h)
  rwa [Entries.keys, Entries.keys, List.length_map, List.length_map] at hlength

theorem agreeFields_append (h : xs.length = ys.length) :
    agreeFields (xs ++ xs') (ys ++ ys') = (agreeFields xs ys && agreeFields xs' ys') := by
  induction xs generalizing ys with
  | nil =>
    rw [List.eq_nil_of_length_eq_zero h.symm]
    simp [agreeFields]
  | cons x xs ih =>
    cases ys with
    | nil => cases h
    | cons y ys =>
      rw [List.cons_append, List.cons_append, agreeFields, agreeFields,
        ih (Nat.succ.inj h), ← Bool.and_assoc]

theorem agreeItems_map (f : Value → Value) (items : List Value) :
    agreeItems (items.map f) items = items.all fun v => (f v).agrees v := by
  induction items with
  | nil => rfl
  | cons v items ih => rw [List.map_cons, agreeItems, ih, List.all_cons]

mutual

/-- Values that agree are the same. -/
theorem same_of_agrees : ∀ (v w : Value), w.Distinct → v.agrees w = true → v.same w = true
  | .null, w, _, h => by cases w <;> simp_all [agrees, same]
  | .bool _, w, _, h => by cases w <;> simp_all [agrees, same]
  | .number _, w, _, h => by cases w <;> simp_all [agrees, same]
  | .string _, w, _, h => by cases w <;> simp_all [agrees, same]
  | .array items, w, hw, h => by
    cases w with
    | array others =>
      rw [agrees] at h
      rw [same]
      exact sameItems_of_agreeItems items others (fun _ hv => hw.of_mem_items hv) h
    | _ => simp [agrees] at h
  | .object fields, w, hw, h => by
    cases w with
    | object others =>
      rw [agrees] at h
      rw [same, agreeFields_length h, beq_self_eq_true, Bool.true_and]
      exact sameFields_of_agreeFields fields others others hw.keys_nodup (fun _ he => he)
        (fun _ he => hw.of_mem_fields he) h
    | _ => simp [agrees] at h

theorem sameItems_of_agreeItems : ∀ (xs ys : List Value), (∀ y ∈ ys, y.Distinct) →
    agreeItems xs ys = true → sameItems xs ys = true
  | [], ys, _, h => by cases ys <;> simp_all [agreeItems, sameItems]
  | x :: xs, ys, hys, h => by
    cases ys with
    | nil => simp [agreeItems] at h
    | cons y ys =>
      rw [agreeItems, Bool.and_eq_true] at h
      rw [sameItems, Bool.and_eq_true]
      exact ⟨same_of_agrees x y (hys y List.mem_cons_self) h.1,
        sameItems_of_agreeItems xs ys (fun z hz => hys z (List.mem_cons_of_mem _ hz)) h.2⟩

theorem sameFields_of_agreeFields : ∀ (xs ys all : List (String × Value)),
    (Entries.keys all).Nodup → (∀ e ∈ ys, e ∈ all) → (∀ e ∈ ys, e.2.Distinct) →
      agreeFields xs ys = true → sameFields xs all = true
  | [], _, _, _, _, _, _ => rfl
  | (k, x) :: xs, ys, all, hkeys, hall, hys, h => by
    cases ys with
    | nil => simp [agreeFields] at h
    | cons y ys =>
      obtain ⟨l, y⟩ := y
      rw [agreeFields, Bool.and_eq_true, Bool.and_eq_true, beq_iff_eq] at h
      obtain ⟨⟨rfl, hxy⟩, hrest⟩ := h
      rw [sameFields, Entries.get?_of_mem hkeys (hall _ List.mem_cons_self), Bool.and_eq_true]
      exact ⟨same_of_agrees x y (hys _ List.mem_cons_self) hxy,
        sameFields_of_agreeFields xs ys all hkeys (fun e he => hall e (List.mem_cons_of_mem _ he))
          (fun e he => hys e (List.mem_cons_of_mem _ he)) hrest⟩

end

mutual

/-- Values that agree are nested equally deep. -/
theorem nesting_of_agrees : ∀ (v w : Value), v.agrees w = true → v.nesting = w.nesting
  | .null, w, h => by cases w <;> simp_all [agrees, nesting]
  | .bool _, w, h => by cases w <;> simp_all [agrees, nesting]
  | .number _, w, h => by cases w <;> simp_all [agrees, nesting]
  | .string _, w, h => by cases w <;> simp_all [agrees, nesting]
  | .array items, w, h => by
    cases w with
    | array others =>
      rw [agrees] at h
      rw [nesting, nesting, itemsNesting_of_agreeItems items others h]
    | _ => simp [agrees] at h
  | .object fields, w, h => by
    cases w with
    | object others =>
      rw [agrees] at h
      rw [nesting, nesting, fieldsNesting_of_agreeFields fields others h]
    | _ => simp [agrees] at h

theorem itemsNesting_of_agreeItems : ∀ (xs ys : List Value), agreeItems xs ys = true →
    itemsNesting xs = itemsNesting ys
  | [], ys, h => by cases ys <;> simp_all [agreeItems, itemsNesting]
  | x :: xs, ys, h => by
    cases ys with
    | nil => simp [agreeItems] at h
    | cons y ys =>
      rw [agreeItems, Bool.and_eq_true] at h
      rw [itemsNesting, itemsNesting, nesting_of_agrees x y h.1,
        itemsNesting_of_agreeItems xs ys h.2]

theorem fieldsNesting_of_agreeFields : ∀ (xs ys : List (String × Value)),
    agreeFields xs ys = true → fieldsNesting xs = fieldsNesting ys
  | [], ys, h => by cases ys <;> simp_all [agreeFields, fieldsNesting]
  | (_, x) :: xs, ys, h => by
    cases ys with
    | nil => simp [agreeFields] at h
    | cons y ys =>
      obtain ⟨_, y⟩ := y
      rw [agreeFields, Bool.and_eq_true, Bool.and_eq_true] at h
      rw [fieldsNesting, fieldsNesting, nesting_of_agrees x y h.1.2,
        fieldsNesting_of_agreeFields xs ys h.2]

end

end Agrees

section Numbers

mutual

/-- The numbers in a value. -/
def numbers : Value → List Float
  | number n => [n]
  | array items => itemNumbers items
  | object fields => fieldNumbers fields
  | _ => []

/-- The numbers in a list of values. -/
def itemNumbers : List Value → List Float
  | [] => []
  | v :: rest => numbers v ++ itemNumbers rest

/-- The numbers in the entries of an object. -/
def fieldNumbers : List (String × Value) → List Float
  | [] => []
  | (_, v) :: rest => numbers v ++ fieldNumbers rest

end

variable {items : List Value} {fields : List (String × Value)} {v : Value} {n : Float}

theorem mem_numbers_array (hv : v ∈ items) (hn : n ∈ v.numbers) : n ∈ (array items).numbers := by
  rw [numbers]
  induction items with
  | nil => nomatch hv
  | cons w rest ih =>
    rw [itemNumbers, List.mem_append]
    rcases List.mem_cons.mp hv with rfl | hv
    · exact .inl hn
    · exact .inr (ih hv)

theorem mem_numbers_object {e : String × Value} (he : e ∈ fields) (hn : n ∈ e.2.numbers) :
    n ∈ (object fields).numbers := by
  rw [numbers]
  induction fields with
  | nil => nomatch he
  | cons f rest ih =>
    rw [fieldNumbers, List.mem_append]
    rcases List.mem_cons.mp he with rfl | he
    · exact .inl hn
    · exact .inr (ih he)

end Numbers

section Same

theorem sameItems_map (f g : Value → Value) (items : List Value) :
    sameItems (items.map f) (items.map g) = items.all fun v => (f v).same (g v) := by
  induction items with
  | nil => rfl
  | cons v items ih => rw [List.map_cons, List.map_cons, sameItems, ih, List.all_cons]

/-- Objects differ where an entry of the one differs from what the other has under its key. -/
theorem sameFields_eq_false {xs ys : List (String × Value)} {key : String} {x y : Value}
    (hx : (key, x) ∈ xs) (hy : Entries.get? key ys = some y) (h : x.same y = false) :
    sameFields xs ys = false := by
  induction xs with
  | nil => nomatch hx
  | cons e xs ih =>
    obtain ⟨k, w⟩ := e
    rw [sameFields]
    rcases List.mem_cons.mp hx with heq | hx
    · cases heq
      simp only [hy, h, Bool.false_and]
    · rw [ih hx, Bool.and_false]

end Same

end Remap.Value
