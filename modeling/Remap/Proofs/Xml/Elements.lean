import Remap.Proofs.Value
import Remap.Proofs.Xml.Tag
import Remap.Xml.Writer

/-!
# The elements that a value is written as

A value is written as one element: its attributes, its text, and one child element for each member
of its other entries. Whether this can be done does not depend on the layout.
-/

namespace Remap.Xml

/-- The values that a child entry is written as: the items of an array, or else the value. -/
def members : Value → List Value
  | .array items => items
  | v => [v]

/-- The text of a scalar. -/
def scalarChars (v : Value) : List Char := (v.scalarText?.getD "").toList

/-- The entries of the element that a value is written as; a scalar is all text. -/
def entriesOf : Value → List (String × Value)
  | .object fields => fields
  | .array _ => []
  | v => [(textKey, v)]

/-- The child elements that an entry is written as. -/
def entryElements (e : String × Value) : List (String × Value) :=
  if roleOf e.1 = .child then (members e.2).map (e.1, ·) else []

/-- The attribute that an entry is written as, if it is one, with its text. -/
def entryAttributes (e : String × Value) : List (List Char × List Char) :=
  match roleOf e.1 with
  | .attribute name => [(name, scalarChars e.2)]
  | _ => []

/-- The text that an entry is written as. -/
def entryText (e : String × Value) : List Char :=
  if roleOf e.1 = .text then scalarChars e.2 else []

/-- The child elements among the entries of an element, in the order in which they are written. -/
def elements (fields : List (String × Value)) : List (String × Value) :=
  fields.flatMap entryElements

/-- The attributes among the entries of an element, with their texts. -/
def attributesIn (fields : List (String × Value)) : List (List Char × List Char) :=
  fields.flatMap entryAttributes

/-- The text among the entries of an element. -/
def textIn (fields : List (String × Value)) : List Char := fields.flatMap entryText

section Entries

variable {v : Value} {fields : List (String × Value)} {e : String × Value}

theorem mem_elements_iff : e ∈ elements fields ↔
    ∃ item, (e.1, item) ∈ fields ∧ roleOf e.1 = .child ∧ e.2 ∈ members item := by
  rw [elements, List.mem_flatMap]
  constructor
  · rintro ⟨⟨key, item⟩, hmem, he⟩
    unfold entryElements at he
    split at he
    · next hrole =>
      obtain ⟨v, hv, rfl⟩ := List.mem_map.mp he
      exact ⟨item, hmem, hrole, hv⟩
    · nomatch he
  · rintro ⟨item, hmem, hrole, hv⟩
    refine ⟨(e.1, item), hmem, ?_⟩
    rw [entryElements, if_pos hrole]
    exact List.mem_map_of_mem hv

theorem role_of_mem_elements (he : e ∈ elements fields) : roleOf e.1 = .child := by
  obtain ⟨_, -, hrole, -⟩ := mem_elements_iff.mp he
  exact hrole

theorem members_cases (item : Value) :
    (∃ items, item = .array items ∧ members item = items) ∨
      item.items? = none ∧ members item = [item] := by
  cases item with
  | array items => exact .inl ⟨items, rfl, rfl⟩
  | _ => exact .inr ⟨rfl, rfl⟩

theorem sizeOf_le_of_mem_members {item : Value} (h : v ∈ members item) :
    sizeOf v ≤ sizeOf item := by
  rcases members_cases item with ⟨items, rfl, hmembers⟩ | ⟨-, hmembers⟩
  · rw [hmembers] at h
    have := List.sizeOf_lt_of_mem h
    simp only [Value.array.sizeOf_spec]
    omega
  · rw [hmembers, List.mem_singleton] at h
    rw [h]

theorem entriesOf_of_isScalar (h : v.isScalar) : entriesOf v = [(textKey, v)] := by
  cases v <;> first | rfl | nomatch h

@[simp] theorem elements_nil : elements [] = [] := rfl

@[simp] theorem elements_cons : elements (e :: fields) = entryElements e ++ elements fields := rfl

theorem elements_text : elements [(textKey, v)] = [] := by simp [entryElements]

theorem sizeOf_lt_of_mem_elements (h : e ∈ elements (entriesOf v)) : sizeOf e.2 < sizeOf v := by
  cases v with
  | object fields =>
    obtain ⟨item, hmem, -, hv⟩ := mem_elements_iff.mp h
    have hitem := List.sizeOf_lt_of_mem hmem
    have hmember := sizeOf_le_of_mem_members hv
    simp only [Prod.mk.sizeOf_spec, entriesOf] at hitem
    simp only [Value.object.sizeOf_spec]
    omega
  | _ => simp [entriesOf, entryElements] at h

/-- What holds of a value whenever it holds of the elements inside it holds of every value. -/
@[elab_as_elim]
theorem elements_induction {motive : Value → Prop}
    (step : ∀ v, (∀ e ∈ elements (entriesOf v), motive e.2) → motive v) (v : Value) : motive v :=
  step v fun e _ => elements_induction step e.2
termination_by sizeOf v
decreasing_by exact sizeOf_lt_of_mem_elements ‹_›

theorem elements_distinct (h : v.Distinct) (he : e ∈ elements (entriesOf v)) : e.2.Distinct := by
  cases v with
  | object fields =>
    obtain ⟨item, hmem, -, hv⟩ := mem_elements_iff.mp he
    have hitem := h.of_mem_fields hmem
    rcases members_cases item with ⟨items, rfl, hmembers⟩ | ⟨-, hmembers⟩
    · exact hitem.of_mem_items (hmembers ▸ hv)
    · rw [hmembers, List.mem_singleton] at hv
      rwa [hv]
  | _ => simp [entriesOf, entryElements] at he

theorem entriesOf_keys_nodup (h : v.Distinct) : (Entries.keys (entriesOf v)).Nodup := by
  cases v with
  | object fields => exact h.keys_nodup
  | array items => exact List.nodup_nil
  | _ => exact List.nodup_singleton _

theorem mem_attributesIn_iff {a : List Char × List Char} : a ∈ attributesIn fields ↔
    ∃ e ∈ fields, roleOf e.1 = .attribute a.1 ∧ a.2 = scalarChars e.2 := by
  rw [attributesIn, List.mem_flatMap]
  refine exists_congr fun e => and_congr_right fun _ => ?_
  unfold entryAttributes
  cases roleOf e.1 with
  | «attribute» name => simp [Prod.ext_iff, @eq_comm _ a.1]
  | _ => simp

theorem sublist_keys_attributesIn (fields : List (String × Value)) :
    ((attributesIn fields).map fun a => attributeKey a.1).Sublist (Entries.keys fields) := by
  induction fields with
  | nil => exact .slnil
  | cons e rest ih =>
    rw [attributesIn, List.flatMap_cons, List.map_append, entryAttributes]
    cases hrole : roleOf e.1 with
    | «attribute» name =>
      have hkey : e.1 = attributeKey name := eq_attributeKey_of_roleOf hrole
      simp only [List.map_cons, List.map_nil, List.singleton_append, ← hkey]
      exact ih.cons_cons _
    | _ => exact ih.cons _

theorem attributesIn_names_nodup (h : (Entries.keys fields).Nodup) :
    ((attributesIn fields).map (·.1)).Nodup := by
  have hkeys := h.sublist (sublist_keys_attributesIn fields)
  refine List.Nodup.of_map attributeKey ?_
  rwa [List.map_map]

end Entries

end Remap.Xml
