import Remap.Proofs.Query.Form
import Remap.Proofs.Query.Leaves

/-!
# Values that brackets express

A value is expressed by its leaves if these are strings, no container is empty, and each key and
each index is read from its brackets. Such a value is rebuilt from its leaves, and an object of such
values is read from what is written for it.
-/

namespace Remap.Query

/-- Whether a value stands in a query string under some name. -/
inductive Expressible : Value → Prop
  | string (s : String) : Expressible (.string s)
  | array {items : List Value} (hne : items ≠ []) (hcount : items.length ≤ indexCount)
      (h : ∀ v ∈ items, Expressible v) : Expressible (.array items)
  | object {fields : List (String × Value)} (hne : fields ≠ [])
      (hkeys : (Entries.keys fields).Nodup)
      (hnested : ∀ key ∈ Entries.keys fields, isNestedKey key = true)
      (h : ∀ e ∈ fields, Expressible e.2) : Expressible (.object fields)

/-- Whether entries are those of a query string. -/
structure AreFields (fields : List (String × Value)) : Prop where
  keys_nodup : (Entries.keys fields).Nodup
  writable : ∀ key ∈ Entries.keys fields, isWritableKey key = true
  expressible : ∀ e ∈ fields, Expressible e.2

/-! ## Rebuilding -/

/-- Whether a value is what its leaves build in an empty place. -/
structure Rebuilt (v : Value) : Prop where
  leaves_ne_nil : leaves v ≠ []
  exists_tree : ∃ t, Tree.insertAll (leaves v) .vacant = .ok t ∧ t.value = v

section Rebuilding

variable {v : Value} {fields : List (String × Value)} {items : List Value}
  {trees : List (String × Tree)} {slots : List (Nat × Tree)} {index : Nat}

/-- The leaves of entries build the entries behind those of other keys. -/
theorem insertAll_fieldLeaves (h : ∀ e ∈ fields, Rebuilt e.2)
    (hkeys : (Entries.keys trees ++ Entries.keys fields).Nodup) :
    ∃ grown, Tree.insertAll (fieldLeaves fields) (.object trees) = .ok (.object (trees ++ grown)) ∧
      Tree.fieldValues grown = fields := by
  induction fields generalizing trees with
  | nil => exact ⟨[], by rw [List.append_nil]; rfl, rfl⟩
  | cons e rest ih =>
    obtain ⟨key, v⟩ := e
    obtain ⟨hv, hrest⟩ := List.forall_mem_cons.mp h
    obtain ⟨t, ht, rfl⟩ := hv.exists_tree
    have hnew : key ∉ Entries.keys trees := fun hmem =>
      (List.nodup_append.mp hkeys).2.2 key hmem key List.mem_cons_self rfl
    have hkeys' : (Entries.keys (trees ++ [(key, t)]) ++ Entries.keys rest).Nodup := by
      rwa [Entries.keys_append, List.append_assoc]
    obtain ⟨grown, hgrown, rfl⟩ := ih hrest hkeys'
    refine ⟨(key, t) :: grown, ?_, rfl⟩
    rw [fieldLeaves, Tree.insertAll_append (Tree.insertAll_key_new hnew hv.leaves_ne_nil ht), hgrown,
      List.append_assoc, List.singleton_append]

/-- The leaves of items build the items behind those of smaller indices. -/
theorem insertAll_itemLeaves (h : ∀ v ∈ items, Rebuilt v) (hslots : ∀ slot ∈ slots, slot.1 < index) :
    ∃ grown, Tree.insertAll (itemLeaves index items) (.array slots) =
        .ok (.array (slots ++ grown)) ∧ Tree.slotValues grown = items := by
  induction items generalizing slots index with
  | nil => exact ⟨[], by rw [List.append_nil]; rfl, rfl⟩
  | cons v rest ih =>
    obtain ⟨hv, hrest⟩ := List.forall_mem_cons.mp h
    obtain ⟨t, ht, rfl⟩ := hv.exists_tree
    have hslots' : ∀ slot ∈ slots ++ [(index, t)], slot.1 < index + 1 :=
      List.forall_mem_append.mpr ⟨fun slot hslot => Nat.lt_succ_of_lt (hslots slot hslot),
        List.forall_mem_singleton.mpr (Nat.lt_succ_self index)⟩
    obtain ⟨grown, hgrown, rfl⟩ := ih hrest hslots'
    refine ⟨(index, t) :: grown, ?_, rfl⟩
    rw [itemLeaves, Tree.insertAll_append (Tree.insertAll_index_new hslots hv.leaves_ne_nil ht),
      hgrown, List.append_assoc, List.singleton_append]

theorem rebuilt_object (hne : fields ≠ []) (hkeys : (Entries.keys fields).Nodup)
    (h : ∀ e ∈ fields, Rebuilt e.2) : Rebuilt (.object fields) := by
  have hkeys' : (Entries.keys ([] : List (String × Tree)) ++ Entries.keys fields).Nodup := hkeys
  obtain ⟨grown, hgrown, hvalues⟩ := insertAll_fieldLeaves h hkeys'
  cases fields with
  | nil => exact absurd rfl hne
  | cons e rest =>
    obtain ⟨key, v⟩ := e
    have hv := (h (key, v) List.mem_cons_self).leaves_ne_nil
    refine ⟨?_, .object grown, ?_, ?_⟩
    · exact List.append_ne_nil_of_left_ne_nil (by simpa using hv) _
    · rw [leaves, fieldLeaves, Tree.insertAll_vacant_key hv, ← fieldLeaves, hgrown, List.nil_append]
    · rw [Tree.value, hvalues]

theorem rebuilt_array (hne : items ≠ []) (h : ∀ v ∈ items, Rebuilt v) : Rebuilt (.array items) := by
  have hslots : ∀ slot ∈ ([] : List (Nat × Tree)), slot.1 < 0 := nofun
  obtain ⟨grown, hgrown, hvalues⟩ := insertAll_itemLeaves h hslots
  cases items with
  | nil => exact absurd rfl hne
  | cons v rest =>
    have hv := (h v List.mem_cons_self).leaves_ne_nil
    refine ⟨?_, .array grown, ?_, ?_⟩
    · exact List.append_ne_nil_of_left_ne_nil (by simpa using hv) _
    · rw [leaves, itemLeaves, Tree.insertAll_vacant_index hv, ← itemLeaves, hgrown, List.nil_append]
    · rw [Tree.value, hvalues]

/-- A value that brackets express is rebuilt from its leaves. -/
theorem Expressible.rebuilt (h : Expressible v) : Rebuilt v := by
  induction h with
  | string s => exact ⟨List.cons_ne_nil _ _, .leaf s, rfl, rfl⟩
  | array hne _ _ ih => exact rebuilt_array hne ih
  | object hne hkeys _ _ ih => exact rebuilt_object hne hkeys ih

end Rebuilding

/-! ## Reading what is written -/

section Reading

variable {v : Value} {fields : List (String × Value)} {limit : Nat}

/-- Each segment that leads to a leaf is read from its brackets. -/
theorem Expressible.sound (h : Expressible v) : ∀ l ∈ leaves v, ∀ s ∈ l.place, s.Sound := by
  induction h with
  | string s => exact List.forall_mem_singleton.mpr nofun
  | @array items _ hcount _ ih =>
    intro l hl
    obtain ⟨n, hn, v, hv, m, hm, rfl⟩ := mem_itemLeaves hl
    rw [Nat.zero_add] at hn
    exact List.forall_mem_cons.mpr ⟨Nat.lt_of_lt_of_le hn hcount, ih v hv m hm⟩
  | object _ _ hnested _ ih =>
    intro l hl
    obtain ⟨e, he, m, hm, rfl⟩ := mem_fieldLeaves hl
    exact List.forall_mem_cons.mpr ⟨hnested e.1 (List.mem_map_of_mem he), ih e he m hm⟩

/-- Every key in a value that brackets express is read from its brackets. -/
theorem Expressible.nested_of_mem (h : Expressible v) :
    ∀ key ∈ keysWithin v, isNestedKey key = true := by
  induction h with
  | string s => exact List.forall_mem_nil _
  | array _ _ _ ih =>
    intro key hkey
    obtain ⟨v, hv, hkey⟩ := mem_itemKeys.mp hkey
    exact ih v hv key hkey
  | object _ _ hnested _ ih =>
    intro key hkey
    rcases mem_fieldKeys.mp hkey with hkey | ⟨e, he, hkey⟩
    · exact hnested key hkey
    · exact ih e he key hkey

/-- Whether the pair of a leaf is read with as many segments as a limit admits. -/
def Leaf.Admitted (limit : Nat) (l : Leaf) : Prop :=
  l.place.length ≤ limit ∧ ∃ base place, l.place = .key base :: place ∧
    isWritableKey base = true ∧ ∀ s ∈ place, s.Sound

/-- The pair of a leaf puts the leaf into the tree. -/
theorem addPair_pair {l : Leaf} {tree grown : Tree} (h : l.Admitted limit)
    (hinsert : tree.insert l.text l.place = .ok grown) :
    addPair limit tree (l.pair none).1 (l.pair none).2 = .ok grown := by
  obtain ⟨place, text⟩ := l
  obtain ⟨hlength, base, inner, rfl, hbase, hinner⟩ := h
  have hkey : readKey (nameOf base inner) = .ok (.key base :: inner) := readKey_nameOf hbase hinner
  show addPair limit tree (nameOf base inner) text = _
  rw [addPair, hkey]
  show (if limit < (Segment.key base :: inner).length then _ else _) = _
  rw [if_neg (Nat.not_lt.mpr hlength), hinsert]
  rfl

theorem addPairs_pair {ls : List Leaf} {tree grown : Tree} (h : ∀ l ∈ ls, l.Admitted limit)
    (hinsert : Tree.insertAll ls tree = .ok grown) :
    addPairs limit tree (ls.map (Leaf.pair none)) = .ok grown := by
  induction ls generalizing tree with
  | nil => cases hinsert; rfl
  | cons l ls ih =>
    obtain ⟨hl, hls⟩ := List.forall_mem_cons.mp h
    obtain ⟨next, hnext, hinsert⟩ := bind_eq_ok_iff.mp hinsert
    rw [List.map_cons, addPairs, List.foldlM_cons, addPair_pair hl hnext]
    exact ih hls hinsert

theorem AreFields.admitted (h : AreFields fields)
    (hdepth : (Value.object fields).nesting ≤ limit) : ∀ l ∈ fieldLeaves fields, l.Admitted limit := by
  intro l hl
  have hlength : l.place.length ≤ limit := (length_place_le_fields fields l hl).trans hdepth
  obtain ⟨e, he, m, hm, rfl⟩ := mem_fieldLeaves hl
  exact ⟨hlength, e.1, m.place, rfl, h.writable e.1 (List.mem_map_of_mem he),
    (h.expressible e he).sound m hm⟩

theorem AreFields.writable_of_mem (h : AreFields fields) :
    ∀ key ∈ fieldKeys fields, isWritableKey key = true := by
  intro key hkey
  rcases mem_fieldKeys.mp hkey with hkey | ⟨e, he, hkey⟩
  · exact h.writable key hkey
  · exact (Bool.and_eq_true_iff.mp ((h.expressible e he).nested_of_mem key hkey)).1

/-- The text that is written for an object if all its keys can be written. -/
def textOf (fields : List (String × Value)) : String :=
  joinPairs ((fieldLeaves fields).map (Leaf.pair none))

/-- What is written for the entries of a query string is read as these entries. -/
theorem AreFields.read_textOf (h : AreFields fields)
    (hdepth : (Value.object fields).nesting ≤ limit) :
    read limit (textOf fields) = .ok (.object fields) := by
  have hkeys : (Entries.keys ([] : List (String × Tree)) ++ Entries.keys fields).Nodup := h.keys_nodup
  obtain ⟨grown, hgrown, hvalues⟩ :=
    insertAll_fieldLeaves (fun e he => (h.expressible e he).rebuilt) hkeys
  have hread := read_joinPairs (addPairs_pair (h.admitted hdepth) hgrown)
  rwa [List.nil_append, Tree.value, hvalues] at hread

end Reading

/-! ## Writing -/

section Writing

variable {fields : List (String × Value)}

theorem write_object : write (.object fields) = (fieldPairs none fields).map joinPairs := rfl

/-- An object is written if and only if all its keys can be written. Otherwise one that cannot is
reported. -/
theorem write_cases (fields : List (String × Value)) :
    (∀ key ∈ fieldKeys fields, isWritableKey key = true) ∧
        write (.object fields) = .ok (textOf fields) ∨
      ∃ key ∈ fieldKeys fields, isWritableKey key = false ∧
        write (.object fields) = .error (.badKey key) := by
  rcases writes_fieldPairs none fields with ⟨hkeys, hpairs⟩ | ⟨key, hkey, hbad, hpairs⟩
  · exact .inl ⟨hkeys, by rw [write_object, hpairs]; rfl⟩
  · exact .inr ⟨key, hkey, hbad, by rw [write_object, hpairs]; rfl⟩

theorem AreFields.write_eq (h : AreFields fields) :
    write (.object fields) = .ok (textOf fields) := by
  rcases write_cases fields with ⟨-, hwrite⟩ | ⟨key, hkey, hbad, -⟩
  · exact hwrite
  · rw [h.writable_of_mem key hkey] at hbad
    cases hbad

end Writing

end Remap.Query
