import Remap.Proofs.Query.Parsed
import Remap.Proofs.Reordered

/-!
# Texts found in a tree

A tree without empty containers is determined, up to the order of keys, by the texts found in it.
A text put where nothing is in its way is found there from then on, and nothing else changes. A text
in whose way there is another one is not put at all, except into the items of an array.
-/

namespace Remap.Query

/-- Whether neither of two places is in the way of the other: they part at different keys of an
object, or at different indices of an array. -/
def Apart : List Segment → List Segment → Prop
  | .key m :: p, .key n :: q => m = n → Apart p q
  | .index i :: p, .index j :: q => i = j → Apart p q
  | _, _ => False

theorem Apart.symm {p q : List Segment} (h : Apart p q) : Apart q p := by
  induction p generalizing q with
  | nil => cases h
  | cons s p ih =>
    match s, q, h with
    | .key m, .key n :: q, h => exact fun heq => ih (h heq.symm)
    | .index i, .index j :: q, h => exact fun heq => ih (h heq.symm)

theorem not_apart_self (p : List Segment) : ¬ Apart p p := by
  induction p with
  | nil => exact id
  | cons s p ih =>
    cases s with
    | key | index => exact fun h => ih (h rfl)
    | append => exact id

theorem not_apart_append (p rest : List Segment) : ¬ Apart (p ++ rest) p := by
  induction p with
  | nil => cases rest with
    | nil => exact id
    | cons s rest => cases s <;> exact id
  | cons s p ih =>
    cases s with
    | key | index => exact fun h => ih (h rfl)
    | append => exact id

namespace Tree

/-- The text at the end of segments. -/
def find? : List Segment → Tree → Option String
  | [], leaf text => some text
  | .key name :: place, object fields => (Entries.get? name fields).bind (find? place)
  | .index n :: place, array slots => (slot? n slots).bind (find? place)
  | _, _ => none

/-- Whether no container in a tree is empty, keys are unique and slots are sorted. -/
inductive Full : Tree → Prop
  | leaf (text : String) : Full (.leaf text)
  | object {fields : List (String × Tree)} (hne : fields ≠ []) (hkeys : (Entries.keys fields).Nodup)
      (h : ∀ e ∈ fields, Full e.2) : Full (.object fields)
  | array {slots : List (Nat × Tree)} (hne : slots ≠ [])
      (hsorted : slots.Pairwise fun a b => a.1 < b.1) (h : ∀ slot ∈ slots, Full slot.2) :
      Full (.array slots)

section Slots

variable {n m : Nat} {t : Tree} {slots : List (Nat × Tree)}

theorem slot?_putSlot_of_ne (h : m ≠ n) : slot? m (putSlot n t slots) = slot? m slots := by
  induction slots with
  | nil => exact if_neg (Ne.symm h)
  | cons slot slots ih =>
    obtain ⟨k, u⟩ := slot
    rw [putSlot_cons]
    split
    · exact if_neg (Ne.symm h)
    · split
      · next heq => rw [slot?_cons, slot?_cons, if_neg (Ne.symm h), if_neg (heq ▸ Ne.symm h)]
      · rw [slot?_cons, slot?_cons, ih]

/-- Where slots are sorted, every slot is found. -/
theorem slot?_of_mem (hsorted : slots.Pairwise fun a b => a.1 < b.1) (h : (n, t) ∈ slots) :
    slot? n slots = some t := by
  induction slots with
  | nil => nomatch h
  | cons slot slots ih =>
    obtain ⟨k, u⟩ := slot
    obtain ⟨hslot, hslots⟩ := List.pairwise_cons.mp hsorted
    rcases List.mem_cons.mp h with heq | h
    · cases heq
      exact if_pos rfl
    · rw [slot?_cons, if_neg (Nat.ne_of_lt (hslot _ h)), ih hslots h]

end Slots

/-! ## What is found -/

section Find

variable {t u : Tree} {fields : List (String × Tree)} {slots : List (Nat × Tree)} {name : String}
  {n : Nat} {p q : List Segment}

theorem find?_key : find? (.key name :: p) (object fields) =
    (Entries.get? name fields).bind (find? p) := rfl

theorem find?_index : find? (.index n :: p) (array slots) = (slot? n slots).bind (find? p) := rfl

theorem find?_vacant (p : List Segment) : find? p vacant = none := by
  match p with
  | [] | .key _ :: _ | .index _ :: _ | .append :: _ => rfl

theorem find?_object_nil (p : List Segment) : find? p (object []) = none := by
  match p with
  | [] | .key _ :: _ | .index _ :: _ | .append :: _ => rfl

theorem find?_array_nil (p : List Segment) : find? p (array []) = none := by
  match p with
  | [] | .key _ :: _ | .index _ :: _ | .append :: _ => rfl

theorem find?_getD_get? : find? p ((Entries.get? name fields).getD vacant) =
    find? (.key name :: p) (object fields) := by
  rw [find?_key]
  cases Entries.get? name fields with
  | none => exact find?_vacant p
  | some t => rfl

theorem find?_getD_slot? : find? p ((slot? n slots).getD vacant) =
    find? (.index n :: p) (array slots) := by
  rw [find?_index]
  cases slot? n slots with
  | none => exact find?_vacant p
  | some t => rfl

theorem find?_key_put : find? (.key name :: p) (object (Entries.put name u fields)) =
    find? p u := by
  rw [find?_key, Entries.get?_put_self, Option.bind_some]

theorem find?_index_putSlot : find? (.index n :: p) (array (putSlot n u slots)) = find? p u := by
  rw [find?_index, slot?_putSlot_self, Option.bind_some]

/-- A key at which a text is found below an object. -/
theorem exists_of_find?_object (h : find? q (object fields) ≠ none) :
    ∃ name rest, q = .key name :: rest := by
  match q, h with
  | .key name :: rest, _ => exact ⟨name, rest, rfl⟩

theorem exists_of_find?_array (h : find? q (array slots) ≠ none) :
    ∃ n rest, q = .index n :: rest := by
  match q, h with
  | .index n :: rest, _ => exact ⟨n, rest, rfl⟩

/-- A full tree has a text in it. -/
theorem Full.exists_find? (h : t.Full) : ∃ place, find? place t ≠ none := by
  induction h with
  | leaf text => exact ⟨[], Option.some_ne_none text⟩
  | @object fields hne hkeys _ ih =>
    obtain ⟨e, he⟩ := List.exists_mem_of_ne_nil fields hne
    obtain ⟨place, hplace⟩ := ih e he
    exact ⟨.key e.1 :: place, by rwa [find?_key, Entries.get?_of_mem hkeys he]⟩
  | @array slots hne hsorted _ ih =>
    obtain ⟨slot, hslot⟩ := List.exists_mem_of_ne_nil slots hne
    obtain ⟨place, hplace⟩ := ih slot hslot
    exact ⟨.index slot.1 :: place, by rwa [find?_index, slot?_of_mem hsorted hslot]⟩

end Find

/-! ## Trees in which the same is found -/

section Values

variable {t u : Tree} {fields others : List (String × Tree)} {slots rest : List (Nat × Tree)}

theorem get?_fieldValues (name : String) (fields : List (String × Tree)) :
    Entries.get? name (fieldValues fields) = (Entries.get? name fields).map value := by
  induction fields with
  | nil => rfl
  | cons e fields ih =>
    obtain ⟨key, t⟩ := e
    rw [fieldValues, Entries.get?, Entries.get?]
    split
    · rfl
    · exact ih

/-- Keys under which some text is found. -/
theorem mem_keys_iff_find? (hfields : ∀ e ∈ fields, e.2.Full) {name : String} :
    name ∈ Entries.keys fields ↔ ∃ place, find? (.key name :: place) (object fields) ≠ none := by
  constructor
  · intro hname
    obtain ⟨t, ht⟩ := Entries.get?_of_mem_keys hname
    obtain ⟨place, hplace⟩ := (hfields _ (Entries.mem_of_get? ht)).exists_find?
    exact ⟨place, by rwa [find?_key, ht]⟩
  · rintro ⟨place, hplace⟩
    by_contra hname
    rw [find?_key, Entries.get?_eq_none_iff.mpr hname] at hplace
    exact hplace rfl

/-- Indices under which some text is found. -/
theorem mem_indices_iff_find? (hsorted : slots.Pairwise fun a b => a.1 < b.1)
    (hslots : ∀ slot ∈ slots, slot.2.Full) {n : Nat} :
    n ∈ slots.map Prod.fst ↔ ∃ place, find? (.index n :: place) (array slots) ≠ none := by
  constructor
  · intro hn
    obtain ⟨slot, hslot, rfl⟩ := List.mem_map.mp hn
    obtain ⟨place, hplace⟩ := (hslots slot hslot).exists_find?
    exact ⟨place, by rwa [find?_index, slot?_of_mem hsorted hslot]⟩
  · rintro ⟨place, hplace⟩
    cases hslot : slot? n slots with
    | none =>
      rw [find?_index, hslot] at hplace
      exact absurd rfl hplace
    | some t => exact List.mem_map_of_mem (mem_of_slot? hslot)

/-- Objects in which the same texts are found have the same keys. -/
theorem keys_perm (hkeys : (Entries.keys fields).Nodup) (hkeys' : (Entries.keys others).Nodup)
    (hfields : ∀ e ∈ fields, e.2.Full) (hothers : ∀ e ∈ others, e.2.Full)
    (h : ∀ place, find? place (object fields) = find? place (object others)) :
    (Entries.keys fields).Perm (Entries.keys others) := by
  refine (List.perm_ext_iff_of_nodup hkeys hkeys').mpr fun name => ?_
  rw [mem_keys_iff_find? hfields, mem_keys_iff_find? hothers]
  simp only [h]

/-- Arrays in which the same texts are found have the same indices, and these are sorted. -/
theorem indices_eq (hsorted : slots.Pairwise fun a b => a.1 < b.1)
    (hsorted' : rest.Pairwise fun a b => a.1 < b.1) (hslots : ∀ slot ∈ slots, slot.2.Full)
    (hrest : ∀ slot ∈ rest, slot.2.Full)
    (h : ∀ place, find? place (array slots) = find? place (array rest)) :
    slots.map Prod.fst = rest.map Prod.fst := by
  have hlt := List.pairwise_map.mpr hsorted
  have hlt' := List.pairwise_map.mpr hsorted'
  have hmem (n : Nat) : n ∈ slots.map Prod.fst ↔ n ∈ rest.map Prod.fst := by
    rw [mem_indices_iff_find? hsorted hslots, mem_indices_iff_find? hsorted' hrest]
    simp only [h]
  exact List.Perm.eq_of_pairwise (fun a b _ _ hab hba => absurd hab (Nat.lt_asymm hba)) hlt hlt'
    ((List.perm_ext_iff_of_nodup (hlt.imp Nat.ne_of_lt) (hlt'.imp Nat.ne_of_lt)).mpr hmem)

/-- Full trees in which the same texts are found have the same value up to the order of keys. -/
theorem Full.reordered (ht : t.Full) (hu : u.Full) (h : ∀ place, find? place t = find? place u) :
    t.value.Reordered u.value := by
  induction ht generalizing u with
  | leaf text =>
    have hroot : find? [] u = some text := (h []).symm
    cases u with
    | leaf other =>
      cases hroot
      exact .scalar rfl
    | vacant | object | array => cases hroot
  | @object fields hne hkeys hfields ih =>
    obtain ⟨place, hplace⟩ := (Full.object hne hkeys hfields).exists_find?
    obtain ⟨name, rest, rfl⟩ := exists_of_find?_object hplace
    cases hu with
    | leaf | array => exact absurd (h _) hplace
    | @object others _ hkeys' hothers =>
      rw [value, value]
      refine .object (by rwa [keys_fieldValues]) ?_ fun name x y hx hy => ?_
      · rw [keys_fieldValues, keys_fieldValues]
        exact keys_perm hkeys hkeys' hfields hothers h
      · rw [get?_fieldValues] at hx hy
        obtain ⟨t, ht, rfl⟩ := Option.map_eq_some_iff.mp hx
        obtain ⟨u, hu, rfl⟩ := Option.map_eq_some_iff.mp hy
        have hmem := Entries.mem_of_get? ht
        refine ih _ hmem (hothers _ (Entries.mem_of_get? hu)) fun place => ?_
        have hbelow := h (.key name :: place)
        rwa [find?_key, find?_key, ht, hu] at hbelow
  | @array slots hne hsorted hslots ih =>
    obtain ⟨place, hplace⟩ := (Full.array hne hsorted hslots).exists_find?
    obtain ⟨n, rest, rfl⟩ := exists_of_find?_array hplace
    cases hu with
    | leaf | object => exact absurd (h _) hplace
    | @array others _ hsorted' hothers =>
      have hindices := indices_eq hsorted hsorted' hslots hothers h
      have hlength : slots.length = others.length := by
        simpa using congrArg List.length hindices
      rw [value, value, slotValues_eq_map, slotValues_eq_map]
      refine .array (by rwa [List.length_map, List.length_map]) fun i x y hx hy => ?_
      rw [List.getElem?_map] at hx hy
      obtain ⟨slot, hslot, rfl⟩ := Option.map_eq_some_iff.mp hx
      obtain ⟨other, hother, rfl⟩ := Option.map_eq_some_iff.mp hy
      have hindex : slot.1 = other.1 := by
        have heq := congrArg (·[i]?) hindices
        simpa [hslot, hother] using heq
      have hmem := List.mem_of_getElem? hslot
      have hmem' := List.mem_of_getElem? hother
      refine ih slot hmem (hothers other hmem') fun place => ?_
      have hbelow := h (.index slot.1 :: place)
      rw [find?_index, slot?_of_mem hsorted hmem, find?_index] at hbelow
      rwa [hindex, slot?_of_mem hsorted' hmem'] at hbelow

end Values

/-! ## Putting in a text -/

section Insert

variable {t u : Tree} {fields : List (String × Tree)} {slots : List (Nat × Tree)}
  {name text : String} {n : Nat} {p q : List Segment}

/-- What it means that a text has been put into a tree. -/
structure Grown (text : String) (p : List Segment) (t u : Tree) : Prop where
  full : u.Full
  find : ∀ q, find? q u = if q = p then some text else find? q t

/-- Whether a text at a place grows every tree that has no other text in its way. -/
def Grows (text : String) (p : List Segment) : Prop :=
  ∀ t, t = vacant ∨ t.Full → (∀ q, find? q t ≠ none → Apart p q) →
    ∃ u, t.insert text p = .ok u ∧ Grown text p t u

theorem grows_leaf : Grows text [] := by
  rintro t (rfl | ht) hfree
  · refine ⟨leaf text, rfl, .leaf text, fun q => ?_⟩
    match q with
    | [] | .key _ :: _ | .index _ :: _ | .append :: _ => rfl
  · obtain ⟨q, hq⟩ := ht.exists_find?
    exact (hfree q hq).elim

theorem grows_object (h : Grows text p) (hkeys : (Entries.keys fields).Nodup)
    (hfields : ∀ e ∈ fields, e.2.Full)
    (hfree : ∀ q, find? q (object fields) ≠ none → Apart (.key name :: p) q) :
    ∃ u, (object fields).insert text (.key name :: p) = .ok u ∧
      Grown text (.key name :: p) (object fields) u := by
  have hinner : (Entries.get? name fields).getD vacant = vacant ∨
      ((Entries.get? name fields).getD vacant).Full := by
    cases hget : Entries.get? name fields with
    | none => exact .inl rfl
    | some t => exact .inr (hfields _ (Entries.mem_of_get? hget))
  obtain ⟨inner, hinsert, hfull, hfind⟩ := h _ hinner fun q hq => by
    rw [find?_getD_get?] at hq
    exact hfree _ hq rfl
  refine ⟨object (Entries.put name inner fields), insert_key (l := ⟨p, text⟩) hinsert, ?_,
    fun q => ?_⟩
  · refine .object Entries.put_ne_nil (Entries.keys_put_nodup inner hkeys) fun e he => ?_
    rcases Entries.mem_put he with rfl | he
    · exact hfull
    · exact hfields e he
  · match q with
    | [] | .index _ :: _ | .append :: _ => rfl
    | .key m :: q =>
      by_cases hm : m = name
      · subst hm
        rw [find?_key_put, hfind, find?_getD_get?]
        simp only [List.cons.injEq, true_and]
      · rw [find?_key, Entries.get?_put_of_ne hm, if_neg (by simp [hm]), find?_key]

theorem grows_array (h : Grows text p) (hsorted : slots.Pairwise fun a b => a.1 < b.1)
    (hslots : ∀ slot ∈ slots, slot.2.Full)
    (hfree : ∀ q, find? q (array slots) ≠ none → Apart (.index n :: p) q) :
    ∃ u, (array slots).insert text (.index n :: p) = .ok u ∧
      Grown text (.index n :: p) (array slots) u := by
  have hinner : (slot? n slots).getD vacant = vacant ∨ ((slot? n slots).getD vacant).Full := by
    cases hslot : slot? n slots with
    | none => exact .inl rfl
    | some t => exact .inr (hslots _ (mem_of_slot? hslot))
  obtain ⟨inner, hinsert, hfull, hfind⟩ := h _ hinner fun q hq => by
    rw [find?_getD_slot?] at hq
    exact hfree _ hq rfl
  refine ⟨array (putSlot n inner slots), insert_index (l := ⟨p, text⟩) hinsert, ?_, fun q => ?_⟩
  · refine .array putSlot_ne_nil (pairwise_putSlot hsorted) fun slot hslot => ?_
    rcases mem_putSlot hslot with rfl | hslot
    · exact hfull
    · exact hslots slot hslot
  · match q with
    | [] | .key _ :: _ | .append :: _ => rfl
    | .index m :: q =>
      by_cases hm : m = n
      · subst hm
        rw [find?_index_putSlot, hfind, find?_getD_slot?]
        simp only [List.cons.injEq, true_and]
      · rw [find?_index, slot?_putSlot_of_ne hm, if_neg (by simp [hm]), find?_index]

theorem grows_key (h : Grows text p) (name : String) : Grows text (.key name :: p) := by
  rintro t (rfl | ht) hfree
  · -- in a vacant slot as in an object without entries
    have hfree : ∀ q, find? q (object []) ≠ none → Apart (.key name :: p) q := fun q hq =>
      absurd (find?_object_nil q) hq
    have hkeys : (Entries.keys ([] : List (String × Tree))).Nodup := List.nodup_nil
    obtain ⟨u, hinsert, hfull, hfind⟩ := grows_object h hkeys (List.forall_mem_nil _) hfree
    refine ⟨u, hinsert, hfull, fun q => ?_⟩
    rw [hfind, find?_object_nil, find?_vacant]
  · cases ht with
    | leaf other => exact (hfree [] nofun).elim
    | object _ hkeys hfields => exact grows_object h hkeys hfields hfree
    | array hne hsorted hslots =>
      obtain ⟨q, hq⟩ := (Full.array hne hsorted hslots).exists_find?
      obtain ⟨_, _, rfl⟩ := exists_of_find?_array hq
      exact (hfree _ hq).elim

theorem grows_index (h : Grows text p) (n : Nat) : Grows text (.index n :: p) := by
  rintro t (rfl | ht) hfree
  · have hfree : ∀ q, find? q (array []) ≠ none → Apart (.index n :: p) q := fun q hq =>
      absurd (find?_array_nil q) hq
    obtain ⟨u, hinsert, hfull, hfind⟩ :=
      grows_array h List.Pairwise.nil (List.forall_mem_nil _) hfree
    refine ⟨u, hinsert, hfull, fun q => ?_⟩
    rw [hfind, find?_array_nil, find?_vacant]
  · cases ht with
    | leaf other => exact (hfree [] nofun).elim
    | array _ hsorted hslots => exact grows_array h hsorted hslots hfree
    | object hne hkeys hfields =>
      obtain ⟨q, hq⟩ := (Full.object hne hkeys hfields).exists_find?
      obtain ⟨_, _, rfl⟩ := exists_of_find?_object hq
      exact (hfree _ hq).elim

/-- A text is put where no other is in its way. -/
theorem insert_of_apart (hp : .append ∉ p) : Grows text p := by
  induction p with
  | nil => exact grows_leaf
  | cons s p ih =>
    obtain ⟨hs, hrest⟩ := not_or.mp (mt List.mem_cons.mpr hp)
    cases s with
    | append => exact absurd rfl hs
    | key name => exact grows_key (ih hrest) name
    | index n => exact grows_index (ih hrest) n

/-- A text is not put where another is in its way, unless that one is in an array at its place. -/
theorem apart_of_insert (hp : .append ∉ p) (h : t.insert text p = .ok u) (hq : find? q t ≠ none)
    (hne : q ≠ p) (hitem : ∀ n rest, q ≠ p ++ .index n :: rest) : Apart p q := by
  induction p generalizing q t u with
  | nil =>
    cases t with
    | vacant => exact absurd (find?_vacant q) hq
    | leaf other =>
      match q, hq, hne with
      | [], _, hne => exact absurd rfl hne
    | object fields => cases h
    | array slots =>
      obtain ⟨n, rest, rfl⟩ := exists_of_find?_array hq
      exact absurd rfl (hitem n rest)
  | cons s p ih =>
    obtain ⟨hs, hrest⟩ := not_or.mp (mt List.mem_cons.mpr hp)
    cases s with
    | append => exact absurd rfl hs
    | key name =>
      obtain ⟨fields, inner, hfields, hinner, rfl⟩ := insert_key_eq_ok h
      rcases hfields with ⟨rfl, rfl⟩ | rfl
      · exact absurd (find?_vacant q) hq
      · obtain ⟨m, q, rfl⟩ := exists_of_find?_object hq
        rintro rfl
        rw [← find?_getD_get?] at hq
        exact ih hrest hinner hq (fun heq => hne (heq ▸ rfl)) fun n rest heq =>
          hitem n rest (heq ▸ rfl)
    | index i =>
      obtain ⟨slots, inner, hslots, hinner, rfl⟩ := insert_index_eq_ok h
      rcases hslots with ⟨rfl, rfl⟩ | rfl
      · exact absurd (find?_vacant q) hq
      · obtain ⟨m, q, rfl⟩ := exists_of_find?_array hq
        rintro rfl
        rw [← find?_getD_slot?] at hq
        exact ih hrest hinner hq (fun heq => hne (heq ▸ rfl)) fun n rest heq =>
          hitem n rest (heq ▸ rfl)

end Insert

end Tree

end Remap.Query
