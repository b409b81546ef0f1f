import Mathlib.Data.List.TakeDrop
import Remap.Xml.Name

/-!
# The characters of names

A name is not empty and holds none of the characters that delimit markup, so it can be told from
what stands around it in a tag.
-/

namespace Remap.Xml

/-- The characters that delimit the parts of markup, and the marks of keys that are no names. -/
def marks : List Char :=
  ['<', '>', '/', '=', '"', '\'', '&', '!', '?', ' ', '\r', '\n', '\t', '@', '#']

theorem notMem_marks_of_isAlphanumeric {c : Char}
    (h : Text.isAlphanumeric c || c == '_' || c == '-' || c == '.') : c ∉ marks := by
  intro hc
  have hmarks : marks.all (fun m =>
      !(Text.isAlphanumeric m || m == '_' || m == '-' || m == '.')) = true := by
    decide
  have hmark := List.all_eq_true.mp hmarks c hc
  rw [h] at hmark
  cases hmark

theorem isAlphanumeric_of_isAlphabetic {c : Char} (h : Text.isAlphabetic c) :
    Text.isAlphanumeric c := by
  unfold Text.isAlphabetic at h
  unfold Text.isAlphanumeric
  split at h
  · simp_all [Char.isAlphanum]
  · simp_all

theorem isLocalName_chars {name : List Char} (h : isLocalName name) : ∀ c ∈ name, c ∉ marks := by
  cases name with
  | nil => nofun
  | cons first rest =>
    rw [isLocalName, Bool.and_eq_true, List.all_eq_true] at h
    obtain ⟨hfirst, hrest⟩ := h
    intro c hc
    rcases List.mem_cons.mp hc with rfl | hc
    · apply notMem_marks_of_isAlphanumeric
      rcases (Bool.or_eq_true _ _).mp hfirst with hfirst | hfirst
      · simp [isAlphanumeric_of_isAlphabetic hfirst]
      · simp [beq_iff_eq.mp hfirst]
    · exact notMem_marks_of_isAlphanumeric (hrest c hc)

theorem isName_chars {name : List Char} (h : isName name) : ∀ c ∈ name, c ∉ marks := by
  have happend := List.takeWhile_append_dropWhile (p := (· != ':')) (l := name)
  rw [isName, List.span_eq_takeWhile_dropWhile] at h
  cases hrest : name.dropWhile (· != ':') with
  | nil =>
    rw [hrest, List.append_nil] at happend
    rw [hrest, happend] at h
    exact isLocalName_chars h
  | cons mark rest =>
    have hmark : mark = ':' := by
      have := List.head?_dropWhile_not (· != ':') name
      simpa [hrest] using this
    rw [hrest, Bool.and_eq_true] at h
    intro c hc
    rw [← happend, hrest, List.mem_append, List.mem_cons] at hc
    rcases hc with hc | rfl | hc
    · exact isLocalName_chars h.1 c hc
    · rw [hmark]
      decide
    · exact isLocalName_chars h.2 c hc

/-- A character of a name is none of any marks. -/
theorem notMem_of_isName {name some : List Char} {c : Char} (h : isName name) (hc : c ∈ name)
    (hsome : some ⊆ marks) : c ∉ some :=
  fun hmem => isName_chars h c hc (hsome hmem)

theorem isName_ne_nil {name : List Char} (h : isName name) : name ≠ [] := by
  rintro rfl
  revert h
  decide

section Role

variable {key : String} {name : List Char}

theorem roleOf_of_toList (h : key.toList = attributeMark :: name) :
    roleOf key = .attribute name := by
  rw [roleOf, h]
  rfl

theorem roleOf_of_head_ne (h : ∀ name, key.toList ≠ attributeMark :: name) :
    roleOf key = if key = textKey then .text else .child := by
  unfold roleOf
  split
  · next name hname => exact absurd hname (h name)
  · rfl

theorem roleOf_eq_attribute_iff :
    roleOf key = .attribute name ↔ key.toList = attributeMark :: name := by
  refine ⟨fun h => ?_, roleOf_of_toList⟩
  by_cases hmark : ∃ name, key.toList = attributeMark :: name
  · obtain ⟨other, hother⟩ := hmark
    rw [roleOf_of_toList hother, Role.attribute.injEq] at h
    rw [hother, h]
  · rw [roleOf_of_head_ne (not_exists.mp hmark)] at h
    split at h <;> nomatch h

theorem roleOf_eq_text_iff : roleOf key = .text ↔ key = textKey := by
  constructor
  · intro h
    unfold roleOf at h
    split at h
    · nomatch h
    · split at h
      · assumption
      · nomatch h
  · rintro rfl
    rfl

@[simp] theorem roleOf_textKey : roleOf textKey = .text := roleOf_eq_text_iff.mpr rfl

/-- The key of an attribute of the given name. -/
def attributeKey (name : List Char) : String := String.ofList (attributeMark :: name)

@[simp] theorem toList_attributeKey : (attributeKey name).toList = attributeMark :: name := by
  simp [attributeKey]

@[simp] theorem roleOf_attributeKey : roleOf (attributeKey name) = .attribute name :=
  roleOf_of_toList toList_attributeKey

theorem attributeKey_inj {other : List Char} (h : attributeKey name = attributeKey other) :
    name = other := by
  simpa [attributeKey] using congrArg String.toList h

theorem eq_attributeKey_of_roleOf (h : roleOf key = .attribute name) : key = attributeKey name := by
  rw [attributeKey, ← roleOf_eq_attribute_iff.mp h, String.ofList_toList]

/-- A name stands for a child element. -/
theorem roleOf_of_isName (h : isName key.toList) : roleOf key = .child := by
  have hchars := isName_chars h
  rw [roleOf_of_head_ne, if_neg]
  · rintro rfl
    exact hchars '#' (by decide) (by decide)
  · intro name hname
    exact hchars attributeMark (by simp [hname]) (by decide)

end Role

end Remap.Xml
