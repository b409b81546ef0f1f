import Remap.Proofs.Json.RoundTrip
import Remap.Proofs.Query.Reach
import Remap.Proofs.Query.RoundTrip

/-!
# The nesting of what is read

The keys of a query string are within the nesting limit, and so is a text at the end of one. A text
that is put where another one is already makes an array of both, one level below the key. With keys
as long as the limit this is the only way in which a value gets beyond the limit, and it gets one
level beyond it at most (`read_nesting`).
-/

namespace Remap

namespace Query

namespace Tree

section Insert

variable {t u w inner grown : Tree} {fields : List (String × Tree)} {slots : List (Nat × Tree)}
  {name text : String} {n : Nat} {front place : List Segment}

/-- How deeply the containers in the value of a tree are nested. -/
def nesting (t : Tree) : Nat := t.value.nesting

theorem nesting_object : (object fields).nesting = Value.fieldsNesting (fieldValues fields) + 1 := by
  rw [nesting, value, Value.nesting]

theorem nesting_array : (array slots).nesting = Value.itemsNesting (slotValues slots) + 1 := by
  rw [nesting, value, Value.nesting]

theorem nesting_get?_le : ((Entries.get? name fields).getD vacant).nesting ≤
    Value.fieldsNesting (fieldValues fields) := by
  induction fields with
  | nil => exact Nat.le_refl 0
  | cons e fields ih =>
    obtain ⟨key, t⟩ := e
    rw [Entries.get?, fieldValues, Value.fieldsNesting]
    split
    · exact Nat.le_max_left _ _
    · exact ih.trans (Nat.le_max_right _ _)

theorem nesting_slot?_le : ((slot? n slots).getD vacant).nesting ≤
    Value.itemsNesting (slotValues slots) := by
  induction slots with
  | nil => exact Nat.le_refl 0
  | cons slot slots ih =>
    obtain ⟨m, t⟩ := slot
    rw [slot?_cons, slotValues, Value.itemsNesting]
    split
    · exact Nat.le_max_left _ _
    · exact ih.trans (Nat.le_max_right _ _)

/-- An entry that is put in the place of one that is nested less. -/
theorem fieldsNesting_put (h : ((Entries.get? name fields).getD vacant).nesting ≤ inner.nesting) :
    Value.fieldsNesting (fieldValues (Entries.put name inner fields)) =
      max (Value.fieldsNesting (fieldValues fields)) inner.nesting := by
  induction fields with
  | nil => rw [Entries.put, fieldValues, Value.fieldsNesting, Nat.max_comm]; rfl
  | cons e fields ih =>
    obtain ⟨key, t⟩ := e
    rw [Entries.get?] at h
    rw [Entries.put]
    split
    · next hkey =>
      rw [if_pos hkey] at h
      rw [fieldValues, fieldValues, Value.fieldsNesting, Value.fieldsNesting, ← nesting, ← nesting]
      have h : t.nesting ≤ inner.nesting := h
      omega
    · next hkey =>
      rw [if_neg hkey] at h
      rw [fieldValues, fieldValues, Value.fieldsNesting, Value.fieldsNesting, ih h, Nat.max_assoc]

theorem itemsNesting_putSlot (h : ((slot? n slots).getD vacant).nesting ≤ inner.nesting) :
    Value.itemsNesting (slotValues (putSlot n inner slots)) =
      max (Value.itemsNesting (slotValues slots)) inner.nesting := by
  induction slots with
  | nil => rw [putSlot, slotValues, Value.itemsNesting, Nat.max_comm]; rfl
  | cons slot slots ih =>
    obtain ⟨m, t⟩ := slot
    rw [slot?] at h
    rw [putSlot_cons]
    split
    · rw [slotValues, Value.itemsNesting, Nat.max_comm]
      rfl
    · split
      · next hm =>
        rw [if_pos hm] at h
        rw [slotValues, slotValues, Value.itemsNesting, Value.itemsNesting, ← nesting, ← nesting]
        have h : t.nesting ≤ inner.nesting := h
        omega
      · next hm =>
        rw [if_neg hm] at h
        rw [slotValues, slotValues, Value.itemsNesting, Value.itemsNesting, ih h, Nat.max_assoc]

/-- A text makes an array where something is already. -/
theorem nesting_assign (h : w.assign text = .ok grown) : w.nesting ≤ grown.nesting ∧
    (w = vacant ∧ grown.nesting = 0 ∨ w ≠ vacant ∧ grown.nesting = 1) := by
  cases w with
  | vacant =>
    cases h
    exact ⟨Nat.le_refl 0, .inl ⟨rfl, rfl⟩⟩
  | leaf first =>
    cases h
    exact ⟨Nat.zero_le _, .inr ⟨Tree.noConfusion, rfl⟩⟩
  | array slots =>
    rw [assign] at h
    split at h
    · next hall =>
      cases h
      have hleaves : Value.itemsNesting (slotValues slots) = 0 := by
        rw [← Nat.le_zero, slotValues_eq_map, Value.itemsNesting_le_iff, List.forall_mem_map]
        intro slot hslot
        have hleaf : slot.2.isLeaf = true := List.all_eq_true.mp hall slot hslot
        cases hslot : slot.2 with
        | leaf text => exact Nat.le_refl 0
        | vacant | object | array =>
          rw [hslot] at hleaf
          cases hleaf
      have hgrown : (array (putSlot (nextIndex slots) (leaf text) slots)).nesting = 1 := by
        have hslot : ((slot? (nextIndex slots) slots).getD vacant).nesting ≤ 0 :=
          hleaves ▸ nesting_slot?_le
        rw [nesting_array, itemsNesting_putSlot hslot, hleaves]
        rfl
      rw [nesting_array, hleaves]
      exact ⟨Nat.le_of_eq hgrown.symm, .inr ⟨Tree.noConfusion, hgrown⟩⟩
    · cases h
  | object fields => cases h

/-- What a key finds is below an object, unless it finds nothing. -/
theorem vacant_or_nesting_get?_lt (h : t.fields? = some fields) :
    (Entries.get? name fields).getD vacant = vacant ∨
      ((Entries.get? name fields).getD vacant).nesting < t.nesting := by
  cases t with
  | vacant =>
    cases h
    exact .inl rfl
  | object =>
    cases h
    rw [nesting_object]
    exact .inr (Nat.lt_succ_of_le nesting_get?_le)
  | leaf | array => cases h

theorem vacant_or_nesting_slot?_lt (h : t.slots? = some slots) :
    (slot? n slots).getD vacant = vacant ∨
      ((slot? n slots).getD vacant).nesting < t.nesting := by
  cases t with
  | vacant =>
    cases h
    exact .inl rfl
  | array =>
    cases h
    rw [nesting_array]
    exact .inr (Nat.lt_succ_of_le nesting_slot?_le)
  | leaf | object => cases h

/-- What stands where segments lead is below as many containers as there are segments. -/
theorem Leads.nesting_le (h : Leads t front place w) (hw : w ≠ vacant) :
    front.length + w.nesting ≤ t.nesting := by
  induction h with
  | here t => exact Nat.le_of_eq (Nat.zero_add _)
  | key h hrest ih =>
    have hlt := (vacant_or_nesting_get?_lt h).resolve_left fun hold => hw (hrest.eq_vacant hold)
    have hle := ih hw
    rw [List.length_cons]
    omega
  | index h hrest ih | append h hrest ih =>
    have hlt := (vacant_or_nesting_slot?_lt h).resolve_left fun hold => hw (hrest.eq_vacant hold)
    have hle := ih hw
    rw [List.length_cons]
    omega

/-- Where an entry is put in the place of one that is nested less. -/
theorem nesting_put (h : t.fields? = some fields)
    (hle : ((Entries.get? name fields).getD vacant).nesting ≤ inner.nesting) :
    (object (Entries.put name inner fields)).nesting = max t.nesting (inner.nesting + 1) := by
  rw [nesting_object, fieldsNesting_put hle]
  cases t with
  | vacant =>
    cases h
    exact Nat.succ_max_succ 0 inner.nesting
  | object =>
    cases h
    rw [nesting_object, Nat.succ_max_succ]
  | leaf | array => cases h

theorem nesting_putSlot (h : t.slots? = some slots)
    (hle : ((slot? n slots).getD vacant).nesting ≤ inner.nesting) :
    (array (putSlot n inner slots)).nesting = max t.nesting (inner.nesting + 1) := by
  rw [nesting_array, itemsNesting_putSlot hle]
  cases t with
  | vacant =>
    cases h
    exact Nat.succ_max_succ 0 inner.nesting
  | array =>
    cases h
    rw [nesting_array, Nat.succ_max_succ]
  | leaf | object => cases h

/-- One level up, where something grows from nothing or is not the whole. -/
theorem max_succ_eq {old whole a : Nat} (h : old = 0 ∨ old < whole) :
    max whole (max old a + 1) = max whole (a + 1) := by
  omega

/-- The nesting of a tree into which a text is put. -/
theorem Leads.nesting_insert (h : Leads t front place w) (hassign : w.assign text = .ok grown)
    (hinsert : t.insert text front = .ok u) :
    u.nesting = max t.nesting (front.length + grown.nesting) := by
  have hvacant {t : Tree} (ht : t = vacant) : t.nesting = 0 := by
    rw [ht]
    rfl
  induction h generalizing u with
  | here t =>
    cases hassign.symm.trans hinsert
    rw [List.length_nil, Nat.zero_add, Nat.max_eq_right (nesting_assign hassign).1]
  | key h _ ih =>
    rw [insert_key_eq h] at hinsert
    obtain ⟨inner, hinner, rfl⟩ := map_eq_ok_iff.mp hinsert
    have hnesting := ih hassign hinner
    rw [nesting_put h (hnesting ▸ Nat.le_max_left _ _), hnesting,
      max_succ_eq ((vacant_or_nesting_get?_lt h).imp_left hvacant), List.length_cons,
      Nat.add_right_comm]
  | index h _ ih =>
    rw [insert_index_eq h] at hinsert
    obtain ⟨inner, hinner, rfl⟩ := map_eq_ok_iff.mp hinsert
    have hnesting := ih hassign hinner
    rw [nesting_putSlot h (hnesting ▸ Nat.le_max_left _ _), hnesting,
      max_succ_eq ((vacant_or_nesting_slot?_lt h).imp_left hvacant), List.length_cons,
      Nat.add_right_comm]
  | append h _ ih =>
    rw [insert_append_eq h, insert_index_eq h] at hinsert
    obtain ⟨inner, hinner, rfl⟩ := map_eq_ok_iff.mp hinsert
    have hnesting := ih hassign hinner
    rw [nesting_putSlot h (hnesting ▸ Nat.le_max_left _ _), hnesting,
      max_succ_eq ((vacant_or_nesting_slot?_lt h).imp_left hvacant), List.length_cons,
      Nat.add_right_comm]

end Insert

end Tree

section Pairs

variable {limit : Nat} {tree next grown : Tree} {name text : String} {ps : List (String × String)}

/-- Whether a key as long as the limit ends where a text is already. -/
def EndsAtText (limit : Nat) (tree : Tree) (name : String) : Prop :=
  ∃ segments place text, readKey name = .ok segments ∧ segments.length = limit ∧
    tree.Leads segments place (.leaf text)

theorem endsAtText_iff {segments place : List Segment} {w : Tree}
    (hkey : readKey name = .ok segments) (hleads : tree.Leads segments place w) :
    EndsAtText limit tree name ↔ segments.length = limit ∧ w.isLeaf = true := by
  constructor
  · rintro ⟨others, other, text, hothers, hlength, hleaf⟩
    cases hkey.symm.trans hothers
    obtain ⟨-, rfl⟩ := hleads.unique hleaf
    exact ⟨hlength, rfl⟩
  · rintro ⟨hlength, hleaf⟩
    cases w with
    | leaf text => exact ⟨segments, place, text, hkey, hlength, hleads⟩
    | vacant | object | array => cases hleaf

/-- How a pair changes the nesting of a tree. -/
theorem nesting_addPair (h : addPair limit tree name text = .ok next) :
    tree.nesting ≤ next.nesting ∧ next.nesting ≤ max tree.nesting (limit + 1) ∧
      (tree.nesting ≤ limit → (next.nesting ≤ limit ↔ ¬ EndsAtText limit tree name)) := by
  obtain ⟨segments, hsegments, -⟩ := bind_eq_ok_iff.mp h
  have hkey := mapError_eq_ok_iff.mp hsegments
  obtain ⟨hlength, hinsert⟩ := (addPair_eq_ok_iff hkey).mp h
  obtain ⟨place, w, grown, hleads, hassign⟩ := Tree.exists_leads_of_insert hinsert
  have hnesting := hleads.nesting_insert hassign hinsert
  obtain ⟨-, hgrown⟩ := Tree.nesting_assign hassign
  refine ⟨by omega, by omega, fun hlimit => ?_⟩
  rw [endsAtText_iff hkey hleads, hnesting]
  cases w with
  | vacant =>
    have hzero := (hgrown.resolve_right fun h => h.1 rfl).2
    refine iff_of_true (by omega) ?_
    rintro ⟨-, ⟨⟩⟩
  | leaf first =>
    have hone := (hgrown.resolve_left fun h => Tree.noConfusion h.1).2
    rw [and_iff_left (show (Tree.leaf first).isLeaf = true from rfl)]
    omega
  | array slots =>
    -- an array at the end of a key is within the limit already
    have hone := (hgrown.resolve_left fun h => Tree.noConfusion h.1).2
    have hbelow := hleads.nesting_le Tree.noConfusion
    rw [Tree.nesting_array] at hbelow
    refine iff_of_true (by omega) ?_
    rintro ⟨-, ⟨⟩⟩
  | object fields => cases hassign

/-- Pairs raise the nesting one level beyond the limit at most. -/
theorem nesting_addPairs_le (h : addPairs limit tree ps = .ok grown) :
    tree.nesting ≤ grown.nesting ∧ grown.nesting ≤ max tree.nesting (limit + 1) := by
  induction ps generalizing tree with
  | nil =>
    cases h
    exact ⟨Nat.le_refl _, Nat.le_max_left _ _⟩
  | cons pair ps ih =>
    obtain ⟨next, hnext, h⟩ := bind_eq_ok_iff.mp h
    obtain ⟨hle, hnext_le, -⟩ := nesting_addPair hnext
    obtain ⟨hgrown, hgrown_le⟩ := ih h
    omega

/-- The nesting is within the limit as long as no key as long as the limit ends at a text. -/
theorem nesting_addPairs_iff (hlimit : tree.nesting ≤ limit)
    (h : addPairs limit tree ps = .ok grown) :
    grown.nesting ≤ limit ↔ ∀ before name value after mid, ps = before ++ (name, value) :: after →
      addPairs limit tree before = .ok mid → ¬ EndsAtText limit mid name := by
  induction ps generalizing tree with
  | nil =>
    cases h
    refine iff_of_true hlimit fun before name value after mid hps => ?_
    exact absurd hps.symm (List.append_ne_nil_of_right_ne_nil _ (List.cons_ne_nil _ _))
  | cons pair ps ih =>
    obtain ⟨next, hnext, h⟩ := bind_eq_ok_iff.mp h
    obtain ⟨-, -, hiff⟩ := nesting_addPair hnext
    by_cases hends : EndsAtText limit tree pair.1
    · have hdeep := mt (hiff hlimit).mp (not_not.mpr hends)
      have hle := (nesting_addPairs_le h).1
      refine iff_of_false (by omega) fun hall => ?_
      exact hall [] pair.1 pair.2 ps tree rfl rfl hends
    · rw [ih ((hiff hlimit).mpr hends) h]
      constructor
      · intro hall before name value after mid hps hmid
        cases before with
        | nil =>
          cases hps
          cases hmid
          exact hends
        | cons first before =>
          cases hps
          rw [addPairs_cons hnext] at hmid
          exact hall before name value after mid rfl hmid
      · intro hall before name value after mid hps hmid
        refine hall (pair :: before) name value after mid (by rw [hps]; rfl) ?_
        rw [addPairs_cons hnext, hmid]

end Pairs

end Query

namespace Payload

open Query

variable {format : Format} {limits : Limits} {text : String} {v : Value}

/-- **Limits bound what is read** of JSON and of query strings: the text has no more bytes than are
admitted, and no branch of the value has more than one container more than is admitted. None has
more than that if the text is JSON, or if no key as long as the limit ends where a text is already
when its pair is added. -/
theorem read_nesting (hformat : format = .json ∨ format = .query) (hdepth : 1 ≤ limits.maxDepth)
    (h : read format limits text = .ok v) :
    text.utf8ByteSize ≤ limits.maxBytes ∧ (∀ n, v.Branch n → n ≤ limits.maxDepth + 1) ∧
      ((∀ n, v.Branch n → n ≤ limits.maxDepth) ↔ format = .json ∨
        ∀ before name value after tree, pairsOf text = before ++ (name, value) :: after →
          addPairs limits.maxDepth (.object []) before = .ok tree →
            ¬ EndsAtText limits.maxDepth tree name) := by
  rw [← Value.nesting_le_iff, ← Value.nesting_le_iff]
  rcases hformat with rfl | rfl
  · obtain ⟨hsize, -, hnesting⟩ := read_json_eq_ok_iff.mp h
    exact ⟨hsize, Nat.le_succ_of_le hnesting, iff_of_true hnesting (.inl rfl)⟩
  · obtain ⟨hsize, hread⟩ := read_query_eq_ok_iff.mp h
    obtain ⟨grown, hgrown, rfl⟩ := read_eq_ok_iff.mp hread
    have hroot : (Tree.object []).nesting ≤ limits.maxDepth := hdepth
    have hle := (nesting_addPairs_le hgrown).2
    rw [or_iff_right Format.noConfusion, ← nesting_addPairs_iff hroot hgrown]
    refine ⟨hsize, ?_, Iff.rfl⟩
    show grown.nesting ≤ _
    omega

/-- A key within the limit, whose text becomes an array, next to one as long as the limit. -/
theorem read_nesting_tags :
    let limits : Limits := ⟨32, 2⟩
    let v : Value := .object [("tag", .array [.string "x", .string "y"]),
      ("by", .object [("name", .string "z")])]
    read .query limits "tag=x&tag=y&by[name]=z" = .ok v ∧
      ("tag=x&tag=y&by[name]=z".utf8ByteSize ≤ 32 ∧ ∀ n, v.Branch n → n ≤ 3) ∧
        read .json limits "[\x7b\"a\":\"b\"\x7d,[]]" =
          .ok (.array [.object [("a", .string "b")], .array []]) ∧
          ∀ n, (Value.array [.object [("a", .string "b")], .array []]).Branch n → n ≤ 2 := by
  intro limits v
  have hquery : read .query limits "tag=x&tag=y&by[name]=z" = .ok v := by cbv
  have hjson : read .json limits "[\x7b\"a\":\"b\"\x7d,[]]" =
      .ok (.array [.object [("a", .string "b")], .array []]) := by cbv
  obtain ⟨hsize, hbranch, -⟩ := read_nesting (.inr rfl) (by decide) hquery
  obtain ⟨-, -, hiff⟩ := read_nesting (.inl rfl) (by decide) hjson
  exact ⟨hquery, ⟨hsize, hbranch⟩, hjson, hiff.mpr (.inl rfl)⟩

/-- With a limit of one, a repeated key makes an array below the root, which brackets and JSON may
not. -/
theorem read_nesting_repeated :
    let limits : Limits := ⟨32, 1⟩
    let v : Value := .object [("a", .array [.string "x", .string "y"])]
    read .query limits "a=x&a=y" = .ok v ∧ v.Branch 2 ∧
      read .query limits "a[]=x&a[]=y" = .error ⟨.query, .query (.tooDeep 1), some 0⟩ ∧
        read .json limits "\x7b\"a\":[\"x\",\"y\"]\x7d" = .error ⟨.json, .tooDeep 1, none⟩ := by
  intro limits v
  have hbranch : v.Branch 2 :=
    .child rfl List.mem_cons_self (.child rfl List.mem_cons_self (.scalar rfl))
  exact ⟨by cbv, hbranch, by cbv, by cbv⟩

end Payload

end Remap
