import Mathlib.Data.List.Nodup
import Remap.Proofs.Entries
import Remap.Proofs.Results
import Remap.Proofs.Xml.Escape
import Remap.Proofs.Xml.Name
import Remap.Xml.Reader

/-!
# Tags

A tag that is written as a name and quoted attributes is read as one: it ends at its own `>`, and
its name and attributes are those that were written.
-/

namespace Remap.Xml

section TagEnd

/-- Whether every quote that is opened in a piece of a tag is closed in it, and no `>` stands
outside of quotes. -/
def Closed (piece : List Char) : Prop :=
  ∀ seen rest, untilTagEnd none seen (piece ++ rest) = untilTagEnd none (piece.reverse ++ seen) rest

variable {piece other rest : List Char}

theorem Closed.nil : Closed [] := fun _ _ => rfl

theorem Closed.append (h : Closed piece) (hother : Closed other) : Closed (piece ++ other) := by
  intro seen rest
  rw [List.append_assoc, h, hother, List.reverse_append, List.append_assoc]

theorem Closed.flatMap {α : Type} {xs : List α} {f : α → List Char} (h : ∀ x ∈ xs, Closed (f x)) :
    Closed (xs.flatMap f) := by
  induction xs with
  | nil => exact .nil
  | cons x xs ih =>
    rw [List.flatMap_cons]
    exact (h x List.mem_cons_self).append (ih fun y hy => h y (List.mem_cons_of_mem _ hy))

theorem Closed.of_plain (h : ∀ c ∈ piece, c ∉ ['>', '"', '\'']) : Closed piece := by
  induction piece with
  | nil => exact .nil
  | cons c piece ih =>
    intro seen rest
    have hc := h c List.mem_cons_self
    simp only [List.mem_cons, List.not_mem_nil, or_false, not_or] at hc
    rw [List.cons_append, untilTagEnd, if_neg hc.1, if_neg (not_or.mpr hc.2),
      ih (fun d hd => h d (List.mem_cons_of_mem _ hd)), List.reverse_cons, List.append_assoc,
      List.singleton_append]

theorem untilTagEnd_quoted (seen rest : List Char) (h : '"' ∉ piece) :
    untilTagEnd (some '"') seen (piece ++ '"' :: rest) =
      untilTagEnd none ('"' :: (piece.reverse ++ seen)) rest := by
  induction piece generalizing seen with
  | nil => rfl
  | cons c piece ih =>
    obtain ⟨hc, hpiece⟩ := not_or.mp (mt List.mem_cons.mpr h)
    rw [List.cons_append, untilTagEnd, if_neg (Ne.symm hc), ih _ hpiece, List.reverse_cons,
      List.append_assoc, List.singleton_append]

theorem Closed.quoted (h : '"' ∉ piece) : Closed ('"' :: (piece ++ ['"'])) := by
  intro seen rest
  have := untilTagEnd_quoted ('"' :: seen) rest h
  simpa [untilTagEnd] using this

theorem Closed.untilTagEnd (rest : List Char) (h : Closed piece) :
    untilTagEnd none [] (piece ++ '>' :: rest) = some (piece, rest) := by
  rw [h, List.append_nil, Xml.untilTagEnd, if_pos rfl, List.reverse_reverse]

end TagEnd

/-- An attribute behind the name of a tag. -/
def writtenAttribute : List Char × List Char → List Char
  | (name, text) => ' ' :: name ++ '=' :: '"' :: escape text ++ ['"']

/-- What stands between the angle brackets of a start tag. -/
def startTag (name : List Char) (attributes : List (List Char × List Char)) : List Char :=
  name ++ attributes.flatMap writtenAttribute

section Attributes

variable {name : List Char} {attributes : List (List Char × List Char)}

theorem isSpace_of_isName {c : Char} (h : isName name) (hc : c ∈ name) : isSpace c = false := by
  have hspaces := notMem_of_isName h hc (by decide : [' ', '\r', '\n', '\t'] ⊆ marks)
  simpa [isSpace] using hspaces

theorem closed_of_isName (h : isName name) : Closed name :=
  .of_plain fun _ hc => notMem_of_isName h hc (by decide)

theorem closed_writtenAttribute {text : List Char} (h : isName name) :
    Closed (writtenAttribute (name, text)) := by
  have hpieces : writtenAttribute (name, text) =
      [' '] ++ name ++ ['='] ++ '"' :: (escape text ++ ['"']) := by
    simp [writtenAttribute]
  rw [hpieces]
  have hspace : Closed [' '] := .of_plain (by simp)
  have hequals : Closed ['='] := .of_plain (by simp)
  exact ((hspace.append (closed_of_isName h)).append hequals).append
    (.quoted (notMem_escape (by decide) text))

theorem closed_startTag (hname : isName name) (h : ∀ a ∈ attributes, isName a.1) :
    Closed (startTag name attributes) :=
  (closed_of_isName hname).append (.flatMap fun a ha => closed_writtenAttribute (h a ha))

theorem name_prefix_startTag : name <+: startTag name attributes := List.prefix_append _ _

theorem splitName_startTag (hname : isName name) :
    splitName (startTag name attributes) = (name, attributes.flatMap writtenAttribute) := by
  have hspace : ∀ c ∈ name, !isSpace c := fun c hc => by rw [isSpace_of_isName hname hc]; rfl
  rw [splitName, startTag]
  cases attributes with
  | nil =>
    rw [List.flatMap_nil, List.append_nil]
    exact span_eq_self hspace
  | cons a attributes => exact span_append_cons hspace rfl

theorem readKey_written {size : Nat} {rest : List Char} (hname : isName name) :
    readKey size (name ++ '=' :: rest) = .ok (name, rest) := by
  cases name with
  | nil => exact absurd rfl (isName_ne_nil hname)
  | cons first tail =>
    have hchars : ∀ c ∈ tail, (c != '=' && !isSpace c) = true := by
      intro c hc
      have hmem := List.mem_cons_of_mem first hc
      have hequals := notMem_of_isName hname hmem (by decide : ['='] ⊆ marks)
      rw [isSpace_of_isName hname hmem]
      simpa using hequals
    rw [List.cons_append, readKey, span_append_cons hchars rfl]
    rfl

theorem readQuoted_written {size : Nat} {rest : List Char} (text : List Char) :
    readQuoted size ('"' :: (escape text ++ '"' :: rest)) = .ok (escape text, rest) := by
  have hquote : ∀ c ∈ escape text, (c != '"') = true := by
    intro c hc
    rw [bne_iff_ne]
    rintro rfl
    exact notMem_escape (by decide) text hc
  have hspan : (escape text ++ '"' :: rest).span (· != '"') = (escape text, '"' :: rest) :=
    span_append_cons hquote rfl
  have hstart : ('"' :: (escape text ++ '"' :: rest)).dropWhile isSpace =
      '"' :: (escape text ++ '"' :: rest) := rfl
  rw [readQuoted, hstart]
  simp only [true_or, if_true, hspan]

theorem dropWhile_writtenAttribute {text rest : List Char} (hname : isName name) :
    (writtenAttribute (name, text) ++ rest).dropWhile isSpace =
      name ++ '=' :: '"' :: (escape text ++ '"' :: rest) := by
  cases name with
  | nil => exact absurd rfl (isName_ne_nil hname)
  | cons first tail =>
    have hfirst := isSpace_of_isName hname List.mem_cons_self
    simp [writtenAttribute, hfirst, show isSpace ' ' = true from rfl]

theorem readAttributes_cons {before : List Attribute} (size fuel : Nat) (text rest : List Char)
    (hname : isName name) (hnew : ∀ b ∈ before, b.key ≠ name) :
    ∃ position, readAttributes size (fuel + 1) before (writtenAttribute (name, text) ++ rest) =
      readAttributes size fuel (⟨position, name, text⟩ :: before) rest := by
  have hfind : before.find? (fun a => a.key == name) = none := by
    rw [List.find?_eq_none]
    exact fun b hb heq => hnew b hb (beq_iff_eq.mp heq)
  refine ⟨positionOf size (name ++ '=' :: '"' :: (escape text ++ '"' :: rest)), ?_⟩
  rw [readAttributes, dropWhile_writtenAttribute hname]
  split
  · next hnil => simp at hnil
  · simp only [readKey_written hname, readQuoted_written, unescape_escape, mapError_ok, hfind,
      bind, Except.bind]

/-- Attributes with different names are read in the order in which they are written. -/
theorem readAttributes_written (size : Nat) (hnames : ∀ a ∈ attributes, isName a.1) :
    ∀ (fuel : Nat) (before : List Attribute), attributes.length < fuel →
      (before.map (·.key) ++ attributes.map (·.1)).Nodup →
        ∃ after, readAttributes size fuel before (attributes.flatMap writtenAttribute) =
            .ok (before.reverse ++ after) ∧
          after.map (fun a => (a.key, a.value)) = attributes := by
  induction attributes with
  | nil =>
    intro fuel before hfuel hdistinct
    obtain ⟨fuel, rfl⟩ := Nat.exists_eq_succ_of_ne_zero (Nat.ne_of_gt hfuel)
    exact ⟨[], by simp [readAttributes], rfl⟩
  | cons a attributes ih =>
    intro fuel before hfuel hdistinct
    obtain ⟨name, text⟩ := a
    obtain ⟨fuel, rfl⟩ := Nat.exists_eq_succ_of_ne_zero (Nat.ne_of_gt (Nat.zero_lt_of_lt hfuel))
    have hnew : ∀ b ∈ before, b.key ≠ name := by
      intro b hb
      rw [List.nodup_append] at hdistinct
      exact hdistinct.2.2 _ (List.mem_map_of_mem hb) name List.mem_cons_self
    obtain ⟨position, hread⟩ := readAttributes_cons size fuel text
      (attributes.flatMap writtenAttribute) (hnames _ List.mem_cons_self) hnew
    have hdistinct : (((⟨position, name, text⟩ : Attribute) :: before).map (·.key)
        ++ attributes.map (·.1)).Nodup :=
      List.perm_middle.nodup_iff.mp hdistinct
    obtain ⟨after, hafter, hmap⟩ := ih (fun b hb => hnames b (List.mem_cons_of_mem _ hb))
      fuel _ (Nat.lt_of_succ_lt_succ hfuel) hdistinct
    refine ⟨⟨position, name, text⟩ :: after, ?_, by rw [List.map_cons, hmap]⟩
    rw [List.flatMap_cons, hread, hafter, List.reverse_cons, List.append_assoc,
      List.singleton_append]

theorem attributesOf_startTag (hname : isName name) (hnames : ∀ a ∈ attributes, isName a.1)
    (hdistinct : (attributes.map (·.1)).Nodup) :
    ∃ read, attributesOf (startTag name attributes) = .ok read ∧
      read.map (fun a => (a.key, a.value)) = attributes := by
  have hfuel : attributes.length < (startTag name attributes).length + 1 := by
    have : attributes.length ≤ (attributes.flatMap writtenAttribute).length :=
      length_le_length_flatMap fun a _ => List.cons_ne_nil _ _
    rw [startTag, List.length_append]
    omega
  obtain ⟨after, hread, hmap⟩ := readAttributes_written
    (Text.byteLength (startTag name attributes)) hnames _ [] hfuel hdistinct
  refine ⟨after, ?_, hmap⟩
  rw [attributesOf, splitName_startTag hname, hread]
  rfl

/-- The attributes of an element as they are read. -/
def readEntries (attributes : List (List Char × List Char)) : List (String × Value) :=
  attributes.map fun (name, text) => (attributeKey name, infer text)

theorem readEntries_keys : Entries.keys (readEntries attributes) =
    (attributes.map (·.1)).map attributeKey := by
  simp [readEntries, Entries.keys]

theorem readEntries_keys_nodup (h : (attributes.map (·.1)).Nodup) :
    (Entries.keys (readEntries attributes)).Nodup := by
  rw [readEntries_keys]
  exact h.map fun _ _ => attributeKey_inj

/-- A start tag opens an element with the name and the attributes that were written. -/
theorem ofTag_startTag (hname : isName name) (hnames : ∀ a ∈ attributes, isName a.1)
    (hdistinct : (attributes.map (·.1)).Nodup) :
    Frame.ofTag (startTag name attributes) =
      .ok ⟨String.ofList name, readEntries attributes, [], []⟩ := by
  obtain ⟨read, hread, hmap⟩ := attributesOf_startTag hname hnames hdistinct
  have hentries : readEntries attributes =
      read.map fun a => (attributeKey a.key, infer a.value) := by
    simp [← hmap, readEntries]
  have hput := Entries.foldl_put [] (readEntries attributes)
    (readEntries_keys_nodup hdistinct)
  rw [List.nil_append, hentries, List.foldl_map] at hput
  have hput : read.foldl (fun es a =>
      Entries.put (String.ofList (Frame.ofTag.attributeMark :: a.key)) (infer a.value) es) [] =
        readEntries attributes := hentries ▸ hput
  rw [Frame.ofTag, hread]
  simp only [bind, Except.bind, hput, splitName_startTag hname]

theorem tagToken_startTag (hname : isName name) :
    tagToken (startTag name attributes) = .start (startTag name attributes) := by
  obtain ⟨tag, last, htag, hlast⟩ :
      ∃ tag last, startTag name attributes = tag ++ [last] ∧ last ≠ '/' := by
    rcases List.eq_nil_or_concat attributes with rfl | ⟨before, ⟨key, text⟩, rfl⟩
    · obtain ⟨tag, last, htag⟩ := (List.eq_nil_or_concat name).resolve_left (isName_ne_nil hname)
      refine ⟨tag, last, by simp [startTag, htag], ?_⟩
      rintro rfl
      exact isName_chars hname '/' (by simp [htag]) (by decide)
    · exact ⟨name ++ before.flatMap writtenAttribute ++ ' ' :: key ++ '=' :: '"' :: escape text,
        '"', by simp [startTag, writtenAttribute], by decide⟩
  rw [htag, tagToken, List.reverse_append]
  simp only [List.reverse_cons, List.reverse_nil, List.nil_append, List.cons_append]
  split
  · next h => simp_all
  · rfl

@[simp] theorem tagToken_slash (tag : List Char) : tagToken (tag ++ ['/']) = .empty tag := by
  simp [tagToken]

/-- A text that opens with a tag. -/
theorem nextToken_tag {tag : List Char} (rest : List Char) (hname : isName name)
    (htag : name <+: tag) (hclosed : Closed tag) :
    nextToken ('<' :: (tag ++ '>' :: rest)) = .ok (tagToken tag, rest) := by
  obtain ⟨tail, rfl⟩ := htag
  have hend := hclosed.untilTagEnd rest
  cases name with
  | nil => exact absurd rfl (isName_ne_nil hname)
  | cons first name =>
    have hfirst := notMem_of_isName hname List.mem_cons_self
      (by decide : ['!', '?', '/'] ⊆ marks)
    simp only [List.mem_cons, List.not_mem_nil, or_false, not_or] at hfirst
    obtain ⟨hbang, hquestion, hslash⟩ := hfirst
    simp only [List.cons_append, List.append_assoc] at hend ⊢
    simp [nextToken, hbang, hquestion, hslash, hend]

end Attributes

section Tokens

variable {name raw rest : List Char}

theorem closingName_of_isName (h : isName name) : closingName name = name := by
  obtain ⟨tag, last, rfl⟩ := (List.eq_nil_or_concat name).resolve_left (isName_ne_nil h)
  have hlast : isSpace last = false := isSpace_of_isName h (by simp)
  simp [closingName, hlast]

theorem nextToken_endTag (h : isName name) :
    nextToken ('<' :: '/' :: (name ++ '>' :: rest)) = .ok (.close name, rest) := by
  simp only [nextToken, (closed_of_isName h).untilTagEnd rest, closingName_of_isName h]

/-- Character data runs up to the next markup. -/
theorem nextToken_text (hraw : raw ≠ []) (h : '<' ∉ raw) :
    nextToken (raw ++ '<' :: rest) = .ok (.text raw, '<' :: rest) := by
  have hspan : (raw ++ '<' :: rest).span (· != '<') = (raw, '<' :: rest) :=
    span_append_cons (by grind) rfl
  obtain ⟨first, raw, rfl⟩ := List.exists_cons_of_ne_nil hraw
  have hfirst : first ≠ '<' := fun heq => h (heq ▸ List.mem_cons_self)
  rw [List.cons_append] at hspan ⊢
  unfold nextToken
  split
  all_goals simp_all

end Tokens

end Remap.Xml
