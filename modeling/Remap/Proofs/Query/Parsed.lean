import Mathlib.Data.List.Perm.Subperm
import Remap.Proofs.Query.Expressible

/-!
# What is read can be expressed

No object and no array under construction is empty, keys are unique and come from brackets, and
slots are sorted by indices that fit 64 bits. This holds of a tree and is preserved by each text
that is put into it, so the value of the finished tree is one that brackets express.
-/

namespace Remap.Query

namespace Tree

/-- Whether a tree has come about from texts put into it. -/
inductive Sound : Tree → Prop
  | leaf (text : String) : Sound (.leaf text)
  | array {slots : List (Nat × Tree)} (hne : slots ≠ [])
      (hsorted : slots.Pairwise fun a b => a.1 < b.1) (hlt : ∀ slot ∈ slots, slot.1 < indexCount)
      (h : ∀ slot ∈ slots, Sound slot.2) : Sound (.array slots)
  | object {fields : List (String × Tree)} (hne : fields ≠ []) (hkeys : (Entries.keys fields).Nodup)
      (hnested : ∀ key ∈ Entries.keys fields, isNestedKey key = true)
      (h : ∀ e ∈ fields, Sound e.2) : Sound (.object fields)

section Steps

variable {t u inner : Tree} {slots : List (Nat × Tree)} {fields : List (String × Tree)} {n : Nat}
  {key text : String} {place : List Segment}

theorem nextIndex_lt (slots : List (Nat × Tree)) : nextIndex slots < indexCount := by
  rw [nextIndex]
  split
  · exact Nat.mod_lt _ (by decide)
  · decide

/-- What is under a key is sound if everything is, or nothing is there yet. -/
theorem sound_or_vacant_get? (h : ∀ e ∈ fields, e.2.Sound) :
    ((Entries.get? key fields).getD vacant) = vacant ∨
      ((Entries.get? key fields).getD vacant).Sound := by
  cases hget : Entries.get? key fields with
  | none => exact .inl rfl
  | some t => exact .inr (h (key, t) (Entries.mem_of_get? hget))

theorem mem_of_slot? (h : slot? n slots = some t) : (n, t) ∈ slots := by
  induction slots with
  | nil => nomatch h
  | cons slot slots ih =>
    obtain ⟨m, u⟩ := slot
    rw [slot?] at h
    split at h
    · next heq =>
      cases h
      rw [heq]
      exact List.mem_cons_self
    · exact List.mem_cons_of_mem _ (ih h)

theorem sound_or_vacant_slot? (h : ∀ slot ∈ slots, slot.2.Sound) :
    ((slot? n slots).getD vacant) = vacant ∨ ((slot? n slots).getD vacant).Sound := by
  cases hslot : slot? n slots with
  | none => exact .inl rfl
  | some t => exact .inr (h (n, t) (mem_of_slot? hslot))

/-- What slots have to be, except that there may be none. -/
structure AreSlots (slots : List (Nat × Tree)) : Prop where
  sorted : slots.Pairwise fun a b => a.1 < b.1
  lt : ∀ slot ∈ slots, slot.1 < indexCount
  sound : ∀ slot ∈ slots, slot.2.Sound

theorem AreSlots.put (h : AreSlots slots) (hn : n < indexCount) (ht : t.Sound) :
    (array (putSlot n t slots)).Sound := by
  refine .array putSlot_ne_nil (pairwise_putSlot h.sorted) (fun slot hslot => ?_) fun slot hslot => ?_
  · rcases mem_putSlot hslot with rfl | hslot
    · exact hn
    · exact h.lt slot hslot
  · rcases mem_putSlot hslot with rfl | hslot
    · exact ht
    · exact h.sound slot hslot

/-- What entries have to be, except that there may be none. -/
structure AreEntries (ok : String → Bool) (fields : List (String × Tree)) : Prop where
  keys_nodup : (Entries.keys fields).Nodup
  keys_ok : ∀ key ∈ Entries.keys fields, ok key = true
  sound : ∀ e ∈ fields, e.2.Sound

theorem AreEntries.put {ok : String → Bool} (h : AreEntries ok fields) (hkey : ok key = true)
    (ht : t.Sound) : AreEntries ok (Entries.put key t fields) where
  keys_nodup := Entries.keys_put_nodup t h.keys_nodup
  keys_ok name hname := by
    rcases Entries.mem_keys_put_iff.mp hname with hname | rfl
    · exact h.keys_ok name hname
    · exact hkey
  sound e he := by
    rcases Entries.mem_put he with rfl | he
    · exact ht
    · exact h.sound e he

theorem areSlots_of_sound (h : (array slots).Sound) : AreSlots slots := by
  cases h with
  | array _ hsorted hlt h => exact ⟨hsorted, hlt, h⟩

theorem areEntries_of_sound (h : (object fields).Sound) : AreEntries isNestedKey fields := by
  cases h with
  | object _ hkeys hnested h => exact ⟨hkeys, hnested, h⟩

/-- What a text under a key does to a tree. -/
theorem insert_key_eq_ok (h : t.insert text (.key key :: place) = .ok u) :
    ∃ fields inner, (t = vacant ∧ fields = [] ∨ t = object fields) ∧
      ((Entries.get? key fields).getD vacant).insert text place = .ok inner ∧
        u = object (Entries.put key inner fields) := by
  cases t with
  | vacant =>
    obtain ⟨inner, hinner, h⟩ := bind_eq_ok_iff.mp h
    cases h
    exact ⟨[], inner, .inl ⟨rfl, rfl⟩, hinner, rfl⟩
  | object fields =>
    obtain ⟨inner, hinner, h⟩ := bind_eq_ok_iff.mp h
    cases h
    exact ⟨fields, inner, .inr rfl, hinner, rfl⟩
  | leaf _ | array _ => cases h

/-- What a text under an index does to a tree. -/
theorem insert_index_eq_ok (h : t.insert text (.index n :: place) = .ok u) :
    ∃ slots inner, (t = vacant ∧ slots = [] ∨ t = array slots) ∧
      ((slot? n slots).getD vacant).insert text place = .ok inner ∧
        u = array (putSlot n inner slots) := by
  cases t with
  | vacant =>
    obtain ⟨inner, hinner, h⟩ := bind_eq_ok_iff.mp h
    cases h
    exact ⟨[], inner, .inl ⟨rfl, rfl⟩, hinner, rfl⟩
  | array slots =>
    obtain ⟨inner, hinner, h⟩ := bind_eq_ok_iff.mp h
    cases h
    exact ⟨slots, inner, .inr rfl, hinner, rfl⟩
  | leaf _ | object _ => cases h

/-- A text that is appended goes under some index. -/
theorem insert_append_eq_ok (h : t.insert text (.append :: place) = .ok u) :
    ∃ n < indexCount, t.insert text (.index n :: place) = .ok u := by
  cases t with
  | vacant => exact ⟨nextIndex [], nextIndex_lt [], h⟩
  | array slots => exact ⟨nextIndex slots, nextIndex_lt slots, h⟩
  | leaf _ | object _ => cases h

/-- Assigning a text preserves soundness. -/
theorem assign_sound (ht : t = vacant ∨ t.Sound) (h : t.assign text = .ok u) : u.Sound := by
  cases t with
  | vacant => cases h; exact .leaf text
  | leaf first =>
    cases h
    have hzero : 0 < indexCount := by decide
    have hone : 1 < indexCount := by decide
    -- the second text in one place makes an array of both
    have hfirst : AreSlots [(0, leaf first)] :=
      ⟨List.pairwise_singleton _ _, List.forall_mem_singleton.mpr hzero,
        List.forall_mem_singleton.mpr (.leaf first)⟩
    exact hfirst.put hone (.leaf text)
  | array slots =>
    rw [assign] at h
    split at h
    · cases h
      exact (areSlots_of_sound (ht.resolve_left nofun)).put (nextIndex_lt slots) (.leaf text)
    · cases h
  | object fields => cases h

/-- Putting in a text preserves soundness. -/
theorem insert_sound (hplace : ∀ s ∈ place, s.Sound) (ht : t = vacant ∨ t.Sound)
    (h : t.insert text place = .ok u) : u.Sound := by
  induction place generalizing t u with
  | nil => exact assign_sound ht h
  | cons s place ih =>
    obtain ⟨hs, hrest⟩ := List.forall_mem_cons.mp hplace
    -- an appended text goes under an index too
    have index_sound {n : Nat} (hn : n < indexCount)
        (h : t.insert text (.index n :: place) = .ok u) : u.Sound := by
      obtain ⟨slots, inner, hslots, hinner, rfl⟩ := insert_index_eq_ok h
      have hareSlots : AreSlots slots := by
        rcases hslots with ⟨-, rfl⟩ | rfl
        · exact ⟨List.Pairwise.nil, nofun, nofun⟩
        · exact areSlots_of_sound (ht.resolve_left nofun)
      exact hareSlots.put hn (ih hrest (sound_or_vacant_slot? hareSlots.sound) hinner)
    cases s with
    | key key =>
      obtain ⟨fields, inner, hfields, hinner, rfl⟩ := insert_key_eq_ok h
      have hentries : AreEntries isNestedKey fields := by
        rcases hfields with ⟨-, rfl⟩ | rfl
        · exact ⟨List.nodup_nil, nofun, nofun⟩
        · exact areEntries_of_sound (ht.resolve_left nofun)
      obtain ⟨hkeys, hnested, hsound⟩ :=
        hentries.put hs (ih hrest (sound_or_vacant_get? hentries.sound) hinner)
      exact .object Entries.put_ne_nil hkeys hnested hsound
    | index n => exact index_sound hs h
    | append =>
      obtain ⟨n, hn, h⟩ := insert_append_eq_ok h
      exact index_sound hn h

/-- Putting in a text at the root keeps what its entries have to be. -/
theorem insert_areEntries (hkey : isWritableKey key = true) (hplace : ∀ s ∈ place, s.Sound)
    (hfields : AreEntries isWritableKey fields)
    (h : (object fields).insert text (.key key :: place) = .ok u) :
    ∃ grown, u = object grown ∧ AreEntries isWritableKey grown := by
  obtain ⟨others, inner, heq, hinner, rfl⟩ := insert_key_eq_ok h
  cases heq.resolve_left nofun
  have hsound := insert_sound hplace (sound_or_vacant_get? hfields.sound) hinner
  exact ⟨_, rfl, hfields.put hkey hsound⟩

end Steps

section Values

variable {t : Tree} {slots : List (Nat × Tree)} {fields : List (String × Tree)}

theorem fieldValues_eq_map (fields : List (String × Tree)) :
    fieldValues fields = fields.map fun e => (e.1, e.2.value) := by
  induction fields with
  | nil => rfl
  | cons e rest ih => rw [fieldValues, ih, List.map_cons]

theorem slotValues_eq_map (slots : List (Nat × Tree)) :
    slotValues slots = slots.map fun slot => slot.2.value := by
  induction slots with
  | nil => rfl
  | cons slot rest ih => rw [slotValues, ih, List.map_cons]

theorem keys_fieldValues (fields : List (String × Tree)) :
    Entries.keys (fieldValues fields) = Entries.keys fields := by
  rw [fieldValues_eq_map, Entries.keys, List.map_map]
  rfl

theorem expressible_of_mem_fieldValues (h : ∀ e ∈ fields, Expressible e.2.value) :
    ∀ e ∈ fieldValues fields, Expressible e.2 := by
  rw [fieldValues_eq_map]
  exact List.forall_mem_map.mpr h

/-- There are no more slots than indices. -/
theorem length_le_indexCount (hsorted : slots.Pairwise fun a b => a.1 < b.1)
    (hlt : ∀ slot ∈ slots, slot.1 < indexCount) : slots.length ≤ indexCount := by
  have hnodup : (slots.map Prod.fst).Nodup :=
    List.pairwise_map.mpr (hsorted.imp fun hab => Nat.ne_of_lt hab)
  have hsub : slots.map Prod.fst ⊆ List.range indexCount := fun n hn => by
    obtain ⟨slot, hslot, rfl⟩ := List.mem_map.mp hn
    exact List.mem_range.mpr (hlt slot hslot)
  have hle := (List.subperm_of_subset hnodup hsub).length_le
  rwa [List.length_map, List.length_range] at hle

/-- Brackets express the value of a tree that has come about from texts. -/
theorem Sound.expressible (h : t.Sound) : Expressible t.value := by
  induction h with
  | leaf text => exact .string text
  | @array slots hne hsorted hlt _ ih =>
    rw [value, slotValues_eq_map]
    refine .array (by simpa using hne) ?_ (List.forall_mem_map.mpr ih)
    rw [List.length_map]
    exact length_le_indexCount hsorted hlt
  | @object fields hne hkeys hnested _ ih =>
    rw [← keys_fieldValues] at hkeys hnested
    exact .object (by simpa [fieldValues_eq_map] using hne) hkeys hnested
      (expressible_of_mem_fieldValues ih)

theorem AreEntries.areFields (h : AreEntries isWritableKey fields) : AreFields (fieldValues fields) where
  keys_nodup := keys_fieldValues fields ▸ h.keys_nodup
  writable := keys_fieldValues fields ▸ h.keys_ok
  expressible := expressible_of_mem_fieldValues fun e he => (h.sound e he).expressible

end Values

end Tree

section Reading

variable {limit : Nat} {grown : Tree} {fields : List (String × Tree)}
  {name text : String} {ps : List (String × String)} {v : Value}

/-- Adding a pair keeps what the entries of the root have to be. -/
theorem addPair_areEntries (hfields : Tree.AreEntries isWritableKey fields)
    (h : addPair limit (.object fields) name text = .ok grown) :
    ∃ others, grown = .object others ∧ Tree.AreEntries isWritableKey others := by
  obtain ⟨segments, hsegments, h⟩ := bind_eq_ok_iff.mp h
  obtain ⟨base, place, rfl, hbase, hplace⟩ := readKey_sound (mapError_eq_ok_iff.mp hsegments)
  split at h
  · cases h
  · exact Tree.insert_areEntries hbase hplace hfields (mapError_eq_ok_iff.mp h)

/-- What the entries of the root have to be holds as long as pairs are added. -/
theorem addPairs_areEntries (hfields : Tree.AreEntries isWritableKey fields)
    (h : addPairs limit (.object fields) ps = .ok grown) :
    ∃ others, grown = .object others ∧ Tree.AreEntries isWritableKey others := by
  induction ps generalizing fields with
  | nil =>
    cases h
    exact ⟨fields, rfl, hfields⟩
  | cons pair ps ih =>
    obtain ⟨next, hnext, h⟩ := bind_eq_ok_iff.mp h
    obtain ⟨others, rfl, hothers⟩ := addPair_areEntries hfields hnext
    exact ih hothers h

theorem areEntries_nil : Tree.AreEntries isWritableKey [] :=
  ⟨List.nodup_nil, List.forall_mem_nil _, List.forall_mem_nil _⟩

/-- What is read of a query string can be written as one. -/
theorem areFields_of_read (h : read limit text = .ok v) :
    ∃ fields, v = .object fields ∧ AreFields fields := by
  obtain ⟨tree, htree, rfl⟩ := read_eq_ok_iff.mp h
  obtain ⟨fields, rfl, hfields⟩ := addPairs_areEntries areEntries_nil htree
  exact ⟨_, rfl, hfields.areFields⟩

end Reading

end Remap.Query
