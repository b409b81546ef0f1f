import Mathlib.Tactic.SplitIfs
import Mathlib.Tactic.Tauto
import Remap.Proofs.Lists
import Remap.Xml.Escape

/-!
# What is written with entities is read as it was

Escaped text holds none of the characters that end a run of text, a tag or a quoted value, and
resolving its entities gives the text back.
-/

namespace Remap.Xml

@[simp] theorem escape_nil : escape [] = [] := rfl

theorem escape_cons (c : Char) (text : List Char) :
    escape (c :: text) = escapeChar c ++ escape text := rfl

/-- A character is written as it is, or as an entity that stands for it. -/
theorem escapeChar_cases (c : Char) :
    (escapeChar c = [c] ∧ c ∉ ['<', '>', '\'', '&', '"']) ∨
      ∃ name ∈ ["lt", "gt", "apos", "amp", "quot"],
        entity? name = some c ∧ escapeChar c = '&' :: (name.toList ++ [';']) := by
  unfold escapeChar
  split_ifs with hlt hgt hapos hamp hquot
  · exact .inr ⟨"lt", by simp, by simp [hlt, entity?], rfl⟩
  · exact .inr ⟨"gt", by simp, by simp [hgt, entity?], rfl⟩
  · exact .inr ⟨"apos", by simp, by simp [hapos, entity?], rfl⟩
  · exact .inr ⟨"amp", by simp, by simp [hamp, entity?], rfl⟩
  · exact .inr ⟨"quot", by simp, by simp [hquot, entity?], rfl⟩
  · exact .inl ⟨rfl, by simp [*]⟩

/-- The name of an entity is told from what stands around it. -/
theorem entityName_chars {name : String} (h : name ∈ ["lt", "gt", "apos", "amp", "quot"]) :
    ∀ d ∈ name.toList, d ≠ '#' ∧ d ≠ '&' ∧ d ≠ ';' := by
  simp only [List.mem_cons, List.not_mem_nil, or_false] at h
  rcases h with rfl | rfl | rfl | rfl | rfl <;> simp

theorem escapeChar_ne_nil (c : Char) : escapeChar c ≠ [] := by
  rcases escapeChar_cases c with ⟨h, -⟩ | ⟨name, -, -, h⟩ <;> simp [h]

theorem escape_eq_nil_iff {text : List Char} : escape text = [] ↔ text = [] := by
  cases text with
  | nil => simp
  | cons c text => simp [escape_cons, escapeChar_ne_nil]

theorem notMem_escapeChar {c mark : Char} (hmark : mark ∈ ['<', '>', '\'', '"']) :
    mark ∉ escapeChar c := by
  rcases escapeChar_cases c with ⟨h, hc⟩ | ⟨name, hname, -, h⟩
  · rw [h, List.mem_singleton]
    rintro rfl
    simp only [List.mem_cons, List.not_mem_nil] at hmark hc
    tauto
  · rw [h]
    revert name mark
    simp only [List.mem_cons, List.not_mem_nil, or_false]
    rintro mark (rfl | rfl | rfl | rfl) name (rfl | rfl | rfl | rfl | rfl) - <;> decide

theorem notMem_escape {mark : Char} (hmark : mark ∈ ['<', '>', '\'', '"']) (text : List Char) :
    mark ∉ escape text := by
  rw [escape, List.mem_flatMap]
  rintro ⟨c, -, h⟩
  exact notMem_escapeChar hmark h

section Unescape

variable {fuel size seen : Nat} {plain raw text : List Char}

theorem unescapeFrom_plain (hplain : '&' ∉ plain) :
    unescapeFrom (fuel + 1) size seen plain = .ok plain := by
  have hspan : plain.span (· != '&') = (plain, []) := span_eq_self (by grind)
  rw [unescapeFrom, hspan]

/-- Text is read up to the end of an entity in one go. -/
theorem unescapeFrom_entity {name : List Char} {c : Char} (hplain : '&' ∉ plain)
    (hname : ∀ d ∈ name, d ≠ '#' ∧ d ≠ '&' ∧ d ≠ ';') (hc : entity? (String.ofList name) = some c) :
    unescapeFrom (fuel + 1) size seen (plain ++ '&' :: (name ++ ';' :: raw)) =
      (unescapeFrom fuel size
        (seen + Text.byteLength plain + 1 + Text.byteLength name + 1) raw).map
        fun tail => plain ++ c :: tail := by
  have hfirst : (plain ++ '&' :: (name ++ ';' :: raw)).span (· != '&') =
      (plain, '&' :: (name ++ ';' :: raw)) := span_append_cons (by grind) (by simp)
  have hsecond : (name ++ ';' :: raw).span (fun c => c != '&' && c != ';') = (name, ';' :: raw) :=
    span_append_cons (by grind) (by simp)
  simp only [unescapeFrom, hfirst, hsecond]
  generalize String.ofList name = word at hc
  cases name with
  | nil => simp [hc]
  | cons d name =>
    have hd : d ≠ '#' := (hname d List.mem_cons_self).1
    simp [hc, hd]

theorem unescapeFrom_escape (text : List Char) : ∀ (fuel seen : Nat) (plain : List Char),
    '&' ∉ plain → text.length < fuel →
      unescapeFrom fuel size seen (plain ++ escape text) = .ok (plain ++ text) := by
  induction text with
  | nil =>
    intro fuel seen plain hplain hfuel
    obtain ⟨fuel, rfl⟩ := Nat.exists_eq_succ_of_ne_zero (Nat.ne_of_gt hfuel)
    rw [escape_nil, List.append_nil]
    exact unescapeFrom_plain hplain
  | cons c text ih =>
    intro fuel seen plain hplain hfuel
    rcases escapeChar_cases c with ⟨hc, hmarks⟩ | ⟨name, hname, hentity, hc⟩
    · have hmore : '&' ∉ plain ++ [c] := by
        simp only [List.mem_cons, List.not_mem_nil, List.mem_append] at hmarks ⊢
        tauto
      have := ih fuel seen _ hmore (Nat.lt_of_succ_lt hfuel)
      simpa [escape_cons, hc] using this
    · obtain ⟨fuel, rfl⟩ := Nat.exists_eq_succ_of_ne_zero (Nat.ne_of_gt (Nat.zero_lt_of_lt hfuel))
      have hraw : plain ++ escape (c :: text) =
          plain ++ '&' :: (name.toList ++ ';' :: escape text) := by
        simp [escape_cons, hc]
      rw [hraw, unescapeFrom_entity hplain (entityName_chars hname) (by simpa using hentity)]
      have hrest := ih fuel (seen + Text.byteLength plain + 1 + Text.byteLength name.toList + 1)
        [] (by simp) (Nat.lt_of_succ_lt_succ hfuel)
      rw [List.nil_append, List.nil_append] at hrest
      rw [hrest]
      rfl

/-- What is written is read as it was. -/
theorem unescape_escape (text : List Char) : unescape (escape text) = .ok text :=
  unescapeFrom_escape text _ 0 [] (by simp)
    (Nat.lt_succ_of_le (length_le_length_flatMap fun c _ => escapeChar_ne_nil c))

end Unescape

end Remap.Xml
