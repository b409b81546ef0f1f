import Mathlib.Tactic.Tauto
import Remap.Proofs.Query.Key
import Remap.Proofs.Query.Tree
import Remap.Proofs.Value

/-!
# Leaves of values

The leaves of a value are what its pairs are written for. Put into an empty tree they rebuild every
value that brackets can express.
-/

namespace Remap.Query

/-! ## Pairs -/

mutual

/-- The leaves of a value, in their order. -/
def leaves : Value → List Leaf
  | .object fields => fieldLeaves fields
  | .array items => itemLeaves 0 items
  | scalar => [⟨[], (scalar.scalarText?).getD ""⟩]

def fieldLeaves : List (String × Value) → List Leaf
  | [] => []
  | (key, v) :: rest => (leaves v).map (Leaf.under (.key key)) ++ fieldLeaves rest

/-- The leaves of the items of an array from an index on. -/
def itemLeaves (index : Nat) : List Value → List Leaf
  | [] => []
  | v :: rest => (leaves v).map (Leaf.under (.index index)) ++ itemLeaves (index + 1) rest

end

mutual

/-- The keys of all objects in a value. -/
def keysWithin : Value → List String
  | .object fields => fieldKeys fields
  | .array items => itemKeys items
  | _ => []

def fieldKeys : List (String × Value) → List String
  | [] => []
  | (key, v) :: rest => key :: keysWithin v ++ fieldKeys rest

def itemKeys : List Value → List String
  | [] => []
  | v :: rest => keysWithin v ++ itemKeys rest

end

/-- The name of a place in what `outer` names. At the root a place starts with its name. -/
def placeName : Option String → List Segment → String
  | some outer, place => nameOf outer place
  | none, [] => ""
  | none, s :: place => nameOf s.inner place

/-- The pair that is written for a leaf. -/
def Leaf.pair (outer : Option String) (l : Leaf) : String × String :=
  (placeName outer l.place, l.text)

/-- Whether writing has the expected pairs if all keys can be written, and reports one of the others
if not. -/
def Writes (keys : List String) (expected : List (String × String))
    (written : Except WriteFault (List (String × String))) : Prop :=
  (∀ key ∈ keys, isWritableKey key = true) ∧ written = .ok expected ∨
    ∃ key ∈ keys, isWritableKey key = false ∧ written = .error (.badKey key)

section Writes

variable {keys others : List String} {ps qs : List (String × String)}
  {first rest : Except WriteFault (List (String × String))} {key : String}

theorem Writes.append (hfirst : Writes keys ps first) (hrest : Writes others qs rest) :
    Writes (keys ++ others) (ps ++ qs) (do
      let first ← first
      let rest ← rest
      .ok (first ++ rest)) := by
  rcases hfirst with ⟨hkeys, rfl⟩ | ⟨key, hkey, hbad, rfl⟩
  · rcases hrest with ⟨hothers, rfl⟩ | ⟨key, hkey, hbad, rfl⟩
    · exact .inl ⟨List.forall_mem_append.mpr ⟨hkeys, hothers⟩, rfl⟩
    · exact .inr ⟨key, List.mem_append_right _ hkey, hbad, rfl⟩
  · exact .inr ⟨key, List.mem_append_left _ hkey, hbad, rfl⟩

theorem Writes.cons (hkey : isWritableKey key = true) (h : Writes keys ps first) :
    Writes (key :: keys) ps first := by
  rcases h with ⟨hkeys, heq⟩ | ⟨other, hother, hbad, heq⟩
  · exact .inl ⟨List.forall_mem_cons.mpr ⟨hkey, hkeys⟩, heq⟩
  · exact .inr ⟨other, List.mem_cons_of_mem _ hother, hbad, heq⟩

/-- The leaves under a segment have the pairs that they have on their own, under a longer name. -/
theorem map_pair_under (outer : Option String) (s : Segment) (ls : List Leaf) :
    (ls.map (Leaf.under s)).map (Leaf.pair outer) =
      ls.map (Leaf.pair (some (placeName outer [s]))) := by
  rw [List.map_map]
  refine List.map_congr_left fun l _ => ?_
  cases outer <;> rfl

theorem fieldPairs_cons (outer : Option String) (key : String) (v : Value)
    (rest : List (String × Value)) : fieldPairs outer ((key, v) :: rest) =
      if isWritableKey key then do
        let first ← pairs (placeName outer [.key key]) v
        let others ← fieldPairs outer rest
        .ok (first ++ others)
      else .error (.badKey key) := by
  cases outer <;> rw [fieldPairs] <;> rfl

mutual

/-- What is written for a value are the pairs of its leaves. -/
theorem writes_pairs (name : String) : ∀ v : Value,
    Writes (keysWithin v) ((leaves v).map (Leaf.pair (some name))) (pairs name v)
  | .null | .bool _ | .number _ | .string _ => .inl ⟨nofun, rfl⟩
  | .array items => writes_itemPairs name 0 items
  | .object fields => writes_fieldPairs (some name) fields

theorem writes_fieldPairs (outer : Option String) : ∀ fields : List (String × Value),
    Writes (fieldKeys fields) ((fieldLeaves fields).map (Leaf.pair outer)) (fieldPairs outer fields)
  | [] => .inl ⟨nofun, rfl⟩
  | (key, v) :: rest => by
    rw [fieldPairs_cons]
    split
    · next hkey =>
      have hvalue := writes_pairs (placeName outer [.key key]) v
      have hrest := writes_fieldPairs outer rest
      rw [fieldKeys, fieldLeaves, List.map_append, map_pair_under]
      exact (hvalue.append hrest).cons hkey
    · next hkey => exact .inr ⟨key, List.mem_cons_self, Bool.eq_false_iff.mpr hkey, rfl⟩

theorem writes_itemPairs (name : String) (index : Nat) : ∀ items : List Value,
    Writes (itemKeys items) ((itemLeaves index items).map (Leaf.pair (some name)))
      (itemPairs name index items)
  | [] => .inl ⟨nofun, rfl⟩
  | v :: rest => by
    have hvalue := writes_pairs (nested name (toString index)) v
    have hrest := writes_itemPairs name (index + 1) rest
    rw [itemKeys, itemLeaves, List.map_append, map_pair_under, itemPairs]
    exact hvalue.append hrest

end

end Writes

/-! ## Leaves of entries and items -/

section Members

variable {fields : List (String × Value)} {items : List Value} {index : Nat} {l : Leaf}
  {key : String}

theorem mem_fieldLeaves (h : l ∈ fieldLeaves fields) :
    ∃ e ∈ fields, ∃ m ∈ leaves e.2, l = m.under (.key e.1) := by
  induction fields with
  | nil => nomatch h
  | cons e rest ih =>
    obtain ⟨key, v⟩ := e
    rcases List.mem_append.mp h with h | h
    · obtain ⟨m, hm, rfl⟩ := List.mem_map.mp h
      exact ⟨(key, v), List.mem_cons_self, m, hm, rfl⟩
    · obtain ⟨e, he, hl⟩ := ih h
      exact ⟨e, List.mem_cons_of_mem _ he, hl⟩

theorem mem_itemLeaves (h : l ∈ itemLeaves index items) :
    ∃ n < index + items.length, ∃ v ∈ items, ∃ m ∈ leaves v, l = m.under (.index n) := by
  induction items generalizing index with
  | nil => nomatch h
  | cons v rest ih =>
    rcases List.mem_append.mp h with h | h
    · obtain ⟨m, hm, rfl⟩ := List.mem_map.mp h
      exact ⟨index, Nat.lt_add_of_pos_right (Nat.succ_pos _), v, List.mem_cons_self, m, hm, rfl⟩
    · obtain ⟨n, hn, v, hv, hl⟩ := ih h
      refine ⟨n, ?_, v, List.mem_cons_of_mem _ hv, hl⟩
      rw [List.length_cons]
      omega

theorem mem_fieldKeys : key ∈ fieldKeys fields ↔
    key ∈ Entries.keys fields ∨ ∃ e ∈ fields, key ∈ keysWithin e.2 := by
  induction fields with
  | nil => exact ⟨nofun, fun h => h.elim nofun fun ⟨_, he, _⟩ => nomatch he⟩
  | cons e rest ih =>
    obtain ⟨name, v⟩ := e
    have hkeys : key ∈ Entries.keys ((name, v) :: rest) ↔ key = name ∨ key ∈ Entries.keys rest :=
      List.mem_cons
    rw [fieldKeys, List.cons_append, List.mem_cons, List.mem_append, ih, List.exists_mem_cons_iff,
      hkeys]
    tauto

theorem mem_itemKeys : key ∈ itemKeys items ↔ ∃ v ∈ items, key ∈ keysWithin v := by
  induction items with
  | nil => exact ⟨nofun, fun ⟨_, hv, _⟩ => nomatch hv⟩
  | cons v rest ih => rw [itemKeys, List.mem_append, ih, List.exists_mem_cons_iff]

mutual

/-- A leaf lies no deeper than the value is nested. -/
theorem length_place_le : ∀ v : Value, ∀ l ∈ leaves v, l.place.length ≤ v.nesting
  | .null | .bool _ | .number _ | .string _ => List.forall_mem_singleton.mpr (Nat.le_refl 0)
  | .array items => length_place_le_items 0 items
  | .object fields => length_place_le_fields fields

theorem length_place_le_fields : ∀ fields : List (String × Value), ∀ l ∈ fieldLeaves fields,
    l.place.length ≤ Value.fieldsNesting fields + 1
  | [] => nofun
  | (key, v) :: rest => by
    refine List.forall_mem_append.mpr ⟨List.forall_mem_map.mpr fun l hl => ?_, fun l hl => ?_⟩
    · exact Nat.succ_le_succ ((length_place_le v l hl).trans (Nat.le_max_left _ _))
    · exact (length_place_le_fields rest l hl).trans (Nat.succ_le_succ (Nat.le_max_right _ _))

theorem length_place_le_items (index : Nat) : ∀ items : List Value,
    ∀ l ∈ itemLeaves index items, l.place.length ≤ Value.itemsNesting items + 1
  | [] => nofun
  | v :: rest => by
    refine List.forall_mem_append.mpr ⟨List.forall_mem_map.mpr fun l hl => ?_, fun l hl => ?_⟩
    · exact Nat.succ_le_succ ((length_place_le v l hl).trans (Nat.le_max_left _ _))
    · exact (length_place_le_items (index + 1) rest l hl).trans
        (Nat.succ_le_succ (Nat.le_max_right _ _))

end

end Members

end Remap.Query
