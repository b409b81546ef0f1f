import Mathlib.Tactic.SplitIfs
import Remap.Proofs.Entries
import Remap.Proofs.Results
import Remap.Query.Tree

/-!
# Texts put into a tree one by one

Texts that go under the same key, or under the same index, build the tree that they would build on
their own. Under a new key this tree goes to the end of an object, and so it does under an index
behind all others in an array.
-/

namespace Remap.Query

/-- A text and the segments that lead to it. -/
structure Leaf where
  place : List Segment
  text : String
deriving DecidableEq, Repr

/-- A leaf of what stands under a segment. -/
def Leaf.under (s : Segment) (l : Leaf) : Leaf := ⟨s :: l.place, l.text⟩

namespace Tree

/-! ## Slots -/

section Slots

variable {m n : Nat} {t u : Tree} {slots : List (Nat × Tree)}

theorem slot?_cons : slot? n ((m, t) :: slots) = if m = n then some t else slot? n slots := rfl

theorem putSlot_cons : putSlot n t ((m, u) :: slots) =
    if n < m then (n, t) :: (m, u) :: slots
    else if m = n then (n, t) :: slots
    else (m, u) :: putSlot n t slots := rfl

theorem slot?_putSlot_self : slot? n (putSlot n t slots) = some t := by
  induction slots with
  | nil => exact if_pos rfl
  | cons slot slots ih =>
    obtain ⟨m, u⟩ := slot
    rw [putSlot_cons]
    split
    · exact if_pos rfl
    · split
      · exact if_pos rfl
      · next hne => rw [slot?_cons, if_neg hne, ih]

theorem putSlot_cons_self : putSlot n u ((n, t) :: slots) = (n, u) :: slots := by
  rw [putSlot_cons, if_neg (Nat.lt_irrefl n), if_pos rfl]

/-- Of two trees in one slot the later one stays. -/
theorem putSlot_putSlot : putSlot n u (putSlot n t slots) = putSlot n u slots := by
  induction slots with
  | nil => exact putSlot_cons_self
  | cons slot slots ih =>
    obtain ⟨m, w⟩ := slot
    rw [putSlot_cons, putSlot_cons]
    split
    · exact putSlot_cons_self
    · next hlt =>
      split
      · exact putSlot_cons_self
      · next hne => rw [putSlot_cons, if_neg hlt, if_neg hne, ih]

/-- A slot behind all others goes to the end. -/
theorem putSlot_of_forall_lt (h : ∀ slot ∈ slots, slot.1 < n) :
    putSlot n t slots = slots ++ [(n, t)] := by
  induction slots with
  | nil => rfl
  | cons slot slots ih =>
    obtain ⟨hslot, hslots⟩ := List.forall_mem_cons.mp h
    rw [putSlot_cons, if_neg (Nat.lt_asymm hslot), if_neg (Nat.ne_of_lt hslot), ih hslots,
      List.cons_append]

theorem slot?_of_forall_lt (h : ∀ slot ∈ slots, slot.1 < n) : slot? n slots = none := by
  induction slots with
  | nil => rfl
  | cons slot slots ih =>
    obtain ⟨hslot, hslots⟩ := List.forall_mem_cons.mp h
    rw [slot?_cons, if_neg (Nat.ne_of_lt hslot), ih hslots]

/-- A slot is the one that was set last, or was there before. -/
theorem mem_putSlot {slot : Nat × Tree} (h : slot ∈ putSlot n t slots) :
    slot = (n, t) ∨ slot ∈ slots := by
  induction slots with
  | nil => exact .inl (List.mem_singleton.mp h)
  | cons first slots ih =>
    obtain ⟨m, u⟩ := first
    rw [putSlot_cons] at h
    split at h
    · exact List.mem_cons.mp h
    · split at h
      · exact (List.mem_cons.mp h).imp_right (List.mem_cons_of_mem _)
      · rcases List.mem_cons.mp h with rfl | h
        · exact .inr List.mem_cons_self
        · exact (ih h).imp_right (List.mem_cons_of_mem _)

theorem putSlot_ne_nil : putSlot n t slots ≠ [] := by
  cases slots with
  | nil => exact List.cons_ne_nil _ _
  | cons slot slots =>
    rw [putSlot_cons]
    split_ifs <;> exact List.cons_ne_nil _ _

/-- Slots stay sorted. -/
theorem pairwise_putSlot (h : slots.Pairwise fun a b => a.1 < b.1) :
    (putSlot n t slots).Pairwise fun a b => a.1 < b.1 := by
  induction slots with
  | nil => exact List.pairwise_singleton _ _
  | cons slot slots ih =>
    obtain ⟨m, u⟩ := slot
    obtain ⟨hslot, hslots⟩ := List.pairwise_cons.mp h
    rw [putSlot_cons]
    split
    · next hlt =>
      refine List.pairwise_cons.mpr ⟨?_, h⟩
      rintro other hother
      rcases List.mem_cons.mp hother with rfl | hother
      · exact hlt
      · exact Nat.lt_trans hlt (hslot other hother)
    · next hle =>
      split
      · next heq => exact List.pairwise_cons.mpr ⟨heq ▸ hslot, hslots⟩
      · next hne =>
        refine List.pairwise_cons.mpr ⟨fun other hother => ?_, ih hslots⟩
        rcases mem_putSlot hother with rfl | hother
        · exact Nat.lt_of_le_of_ne (Nat.le_of_not_lt hle) hne
        · exact hslot other hother

end Slots

/-! ## Leaves -/

section Leaves

variable {t u w inner : Tree} {l : Leaf} {ls ms : List Leaf} {key : String} {n : Nat}
  {fields : List (String × Tree)} {slots : List (Nat × Tree)}

/-- Puts leaves into a tree in their order. -/
def insertAll (ls : List Leaf) (t : Tree) : Except Conflict Tree :=
  ls.foldlM (fun t l => t.insert l.text l.place) t

theorem insertAll_cons (h : t.insert l.text l.place = .ok u) :
    insertAll (l :: ls) t = insertAll ls u := by
  rw [insertAll, List.foldlM_cons, h]
  rfl

theorem insertAll_append (h : insertAll ls t = .ok u) :
    insertAll (ls ++ ms) t = insertAll ms u := by
  rw [insertAll, List.foldlM_append, ← insertAll, h]
  rfl

theorem insert_key (h : ((Entries.get? key fields).getD vacant).insert l.text l.place = .ok inner) :
    (object fields).insert (l.under (.key key)).text (l.under (.key key)).place =
      .ok (object (Entries.put key inner fields)) := by
  rw [Leaf.under, insert]
  dsimp only
  rw [h]
  rfl

theorem insert_index (h : ((slot? n slots).getD vacant).insert l.text l.place = .ok inner) :
    (array slots).insert (l.under (.index n)).text (l.under (.index n)).place =
      .ok (array (putSlot n inner slots)) := by
  rw [Leaf.under, insert]
  dsimp only
  rw [h]
  rfl

/-- Leaves under a key that is taken go into the tree there. -/
theorem insertAll_key (h : insertAll ls t = .ok u) :
    insertAll (ls.map (Leaf.under (.key key))) (object (Entries.put key t fields)) =
      .ok (object (Entries.put key u fields)) := by
  induction ls generalizing t with
  | nil => cases h; rfl
  | cons l ls ih =>
    obtain ⟨next, hnext, h⟩ := bind_eq_ok_iff.mp h
    -- each leaf finds what those before it have built, and puts back what it grows to
    have hfound : ((Entries.get? key (Entries.put key t fields)).getD vacant).insert l.text l.place =
        .ok next := by
      rwa [Entries.get?_put_self, Option.getD_some]
    rw [List.map_cons, insertAll_cons (insert_key hfound), Entries.put_put, ih h]

/-- Leaves under a new key build a tree at the end of the object. -/
theorem insertAll_key_new (hnew : key ∉ Entries.keys fields) (hls : ls ≠ [])
    (h : insertAll ls vacant = .ok u) :
    insertAll (ls.map (Leaf.under (.key key))) (object fields) =
      .ok (object (fields ++ [(key, u)])) := by
  cases ls with
  | nil => exact absurd rfl hls
  | cons l ls =>
    obtain ⟨first, hfirst, h⟩ := bind_eq_ok_iff.mp h
    have hfound : ((Entries.get? key fields).getD vacant).insert l.text l.place = .ok first := by
      rwa [Entries.get?_eq_none_iff.mpr hnew]
    rw [List.map_cons, insertAll_cons (insert_key hfound), insertAll_key h,
      Entries.put_of_notMem hnew]

/-- Leaves under an index that is taken go into the tree there. -/
theorem insertAll_index (h : insertAll ls t = .ok u) :
    insertAll (ls.map (Leaf.under (.index n))) (array (putSlot n t slots)) =
      .ok (array (putSlot n u slots)) := by
  induction ls generalizing t with
  | nil => cases h; rfl
  | cons l ls ih =>
    obtain ⟨next, hnext, h⟩ := bind_eq_ok_iff.mp h
    have hfound : ((slot? n (putSlot n t slots)).getD vacant).insert l.text l.place = .ok next := by
      rwa [slot?_putSlot_self, Option.getD_some]
    rw [List.map_cons, insertAll_cons (insert_index hfound), putSlot_putSlot, ih h]

/-- Leaves under an index behind all others build a tree at the end of the array. -/
theorem insertAll_index_new (hnew : ∀ slot ∈ slots, slot.1 < n) (hls : ls ≠ [])
    (h : insertAll ls vacant = .ok u) :
    insertAll (ls.map (Leaf.under (.index n))) (array slots) = .ok (array (slots ++ [(n, u)])) := by
  cases ls with
  | nil => exact absurd rfl hls
  | cons l ls =>
    obtain ⟨first, hfirst, h⟩ := bind_eq_ok_iff.mp h
    have hfound : ((slot? n slots).getD vacant).insert l.text l.place = .ok first := by
      rwa [slot?_of_forall_lt hnew]
    rw [List.map_cons, insertAll_cons (insert_index hfound), insertAll_index h,
      putSlot_of_forall_lt hnew]

/-- The first leaf under a key makes an object. -/
theorem insertAll_vacant_key (hls : ls ≠ []) :
    insertAll (ls.map (Leaf.under (.key key)) ++ ms) vacant =
      insertAll (ls.map (Leaf.under (.key key)) ++ ms) (object []) := by
  cases ls with
  | nil => exact absurd rfl hls
  | cons l ls => rfl

/-- The first leaf under an index makes an array. -/
theorem insertAll_vacant_index (hls : ls ≠ []) :
    insertAll (ls.map (Leaf.under (.index n)) ++ ms) vacant =
      insertAll (ls.map (Leaf.under (.index n)) ++ ms) (array []) := by
  cases ls with
  | nil => exact absurd rfl hls
  | cons l ls => rfl

end Leaves

end Tree

end Remap.Query
