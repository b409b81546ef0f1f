import Remap.Proofs.Path.Repair
import Remap.Transform.Apply

/-!
# Template patterns are read as they were written

Literal text is written with its braces doubled, the value as an empty placeholder, and a path by
its canonical text, of which no white space is trimmed (`SourcePath.trim_of_parse`). Whatever stands
next to each other, a pattern is read as the parts that were written, with literals that follow each
other joined and empty ones left out (`readParts_write`). The main statement is that parts
without such literals are read back, and that a literal stands unchanged in what any parts come to
(`parse_write`).
-/

namespace Remap

/-! ## White space at the ends of a text -/

namespace Text

/-- A text without white space at either end. -/
structure Trimmed (text : List Char) : Prop where
  first : ∀ c ∈ text.head?, isBlank c = false
  last : ∀ c ∈ text.getLast?, isBlank c = false

variable {text other : List Char}

theorem dropWhile_isBlank (h : ∀ c ∈ text.head?, isBlank c = false) :
    text.dropWhile isBlank = text := by
  cases text with
  | nil => rfl
  | cons c text => rw [List.dropWhile_cons_of_neg (by simp [h c rfl])]

theorem trimChars_of_trimmed (h : Trimmed text) : trimChars text = text := by
  have hlast : ∀ c ∈ text.reverse.head?, isBlank c = false := by
    rw [List.head?_reverse]
    exact h.last
  rw [trimChars, dropWhile_isBlank h.first, dropWhile_isBlank hlast, List.reverse_reverse]

theorem trimmed_of_forall (h : ∀ c ∈ text, isBlank c = false) : Trimmed text :=
  ⟨fun c hc => h c (List.mem_of_head? hc), fun c hc => h c (List.mem_of_getLast? hc)⟩

theorem Trimmed.append (h : Trimmed text) (hother : Trimmed other) : Trimmed (text ++ other) := by
  constructor
  · intro c hc
    rw [List.head?_append, Option.mem_def, Option.or_eq_some_iff] at hc
    exact hc.elim (h.first c) fun hc => hother.first c hc.2
  · intro c hc
    rw [List.getLast?_append, Option.mem_def, Option.or_eq_some_iff] at hc
    exact hc.elim (hother.last c) fun hc => h.last c hc.2

end Text

namespace Path

theorem isBlank_of_isKeyChar {c : Char} (h : isKeyChar c = true) : Text.isBlank c = false := by
  rw [isKeyChar, Bool.and_eq_true, Bool.not_eq_true'] at h
  exact h.2

theorem Spelling.trimmed_text (p : Spelling) : Text.Trimmed p.text := by
  cases p with
  | key name =>
    refine Text.trimmed_of_forall (List.forall_mem_cons.mpr ⟨by decide, fun c hc => ?_⟩)
    exact isBlank_of_isKeyChar (name.isKeyChar c hc)
  | index digits =>
    refine Text.trimmed_of_forall (List.forall_mem_cons.mpr ⟨by decide, ?_⟩)
    refine List.forall_mem_append.mpr ⟨fun c hc => (not_slip_of_isDigit (digits.isDigit c hc)).1, ?_⟩
    simp only [List.mem_singleton, forall_eq]
    decide
  | wildcard => exact Text.trimmed_of_forall (by simp [Spelling.text, Text.isBlank])
  | quoted name =>
    -- white space may stand between the quotes only
    have hstart : Text.Trimmed ['[', '"'] := Text.trimmed_of_forall (by simp [Text.isBlank])
    have hstop : Text.Trimmed ['"', ']'] := Text.trimmed_of_forall (by simp [Text.isBlank])
    constructor
    · exact hstart.first
    · intro c hc
      rw [Spelling.text, ← List.cons_append, ← List.cons_append, List.getLast?_append] at hc
      exact hstop.last c hc

theorem trimmed_spellings (ps : List Spelling) : Text.Trimmed (ps.flatMap Spelling.text) := by
  induction ps with
  | nil => exact Text.trimmed_of_forall (List.forall_mem_nil _)
  | cons p ps ih => exact p.trimmed_text.append ih

/-- The text of a path has no white space at its ends. -/
theorem Form.trimmed_text (f : Form) : Text.Trimmed f.text := by
  cases f with
  | empty => exact Text.trimmed_of_forall (List.forall_mem_nil _)
  | dot => exact Text.trimmed_of_forall (by simp [Form.text, Text.isBlank])
  | absolute segments =>
    have hmark : Text.Trimmed ['$'] := Text.trimmed_of_forall (by simp [Text.isBlank])
    exact hmark.append (trimmed_spellings segments)
  | keyed first hfirst rest =>
    have hkey : Text.Trimmed first.chars :=
      Text.trimmed_of_forall fun c hc => isBlank_of_isKeyChar (first.isKeyChar c hc)
    exact hkey.append (trimmed_spellings rest)
  | bare first rest => exact first.trimmed_text.append (trimmed_spellings rest)

end Path

theorem SourcePath.trim_of_parse {text : String} {p : SourcePath}
    (h : SourcePath.parse text = .ok p) : Text.trim text = text := by
  obtain ⟨f, htext, -⟩ := SourcePath.parse_iff_form.mp h
  rw [Text.trim, ← htext, Text.trimChars_of_trimmed f.trimmed_text, htext, String.ofList_toList]

namespace Template

/-! ## Patterns of parts -/

def isBrace (c : Char) : Bool := c == '\x7b' || c == '\x7d'

/-- A character of literal text as it is written. -/
def doubled (c : Char) : List Char := if isBrace c then [c, c] else [c]

/-- A part as it is written. -/
def Part.chars : Part → List Char
  | .literal text => text.toList.flatMap doubled
  | .value => ['\x7b', '\x7d']
  | .path p => '\x7b' :: p.text.toList ++ ['\x7d']

def write (parts : List Part) : String := String.ofList (parts.flatMap Part.chars)

/-- A path that a placeholder can name by its canonical text. -/
structure Nameable (p : SourcePath) : Prop where
  parse_text : SourcePath.parse p.text = .ok p
  no_brace : ∀ c ∈ p.text.toList, isBrace c = false
  ne_value : p.text ≠ "value"

/-- The parts with literals that follow each other joined and empty ones left out. `literal` is
literal text before them, in reverse. -/
def joined : List Char → List Part → List Part
  | literal, [] => flush literal []
  | literal, .literal text :: parts => joined (text.toList.reverse ++ literal) parts
  | literal, part :: parts => flush literal (part :: joined [] parts)

def Part.isLiteral : Part → Bool
  | .literal _ => true
  | _ => false

/-- Parts of which no literal is empty and none follows another. -/
structure Normal (parts : List Part) : Prop where
  filled : .literal "" ∉ parts
  apart : parts.IsChain fun a b => a.isLiteral = true → b.isLiteral = false

variable {pattern : String} {fuel : Nat} {literal rest : List Char} {part : Part}
  {parts : List Part} {p : SourcePath}

/-! ## Reading what was written -/

theorem readParts_cons {c : Char} (hc : isBrace c = false) :
    readParts pattern (fuel + 1) literal (c :: rest) =
      readParts pattern fuel (c :: literal) rest := by
  rw [readParts]
  · rintro rfl
    cases hc
  · rintro rfl
    cases hc

theorem doubled_ne_nil (c : Char) : doubled c ≠ [] := by
  unfold doubled
  split <;> exact List.cons_ne_nil _ _

/-- A step reads a character of literal text, be it doubled or not. -/
theorem readParts_doubled (c : Char) :
    readParts pattern (fuel + 1) literal (doubled c ++ rest) =
      readParts pattern fuel (c :: literal) rest := by
  cases hc : isBrace c with
  | false =>
    rw [doubled, hc, if_neg Bool.false_ne_true]
    exact readParts_cons hc
  | true =>
    rw [doubled, hc, if_pos rfl]
    rw [isBrace, Bool.or_eq_true, beq_iff_eq, beq_iff_eq] at hc
    rcases hc with rfl | rfl <;> rfl

theorem readParts_literal (text : List Char) :
    readParts pattern (fuel + text.length) literal (text.flatMap doubled ++ rest) =
      readParts pattern fuel (text.reverse ++ literal) rest := by
  induction text generalizing literal with
  | nil => rfl
  | cons c text ih =>
    rw [List.flatMap_cons, List.append_assoc, List.length_cons, ← Nat.add_assoc, readParts_doubled,
      ih, List.reverse_cons, List.append_assoc, List.singleton_append]

/-- What stands between braces is a placeholder, also behind braces of literal text. -/
theorem readParts_placeholder {inner : List Char} (hinner : ∀ c ∈ inner, isBrace c = false)
    (hpart : placeholder inner = .ok part) (hrest : readParts pattern fuel [] rest = .ok parts) :
    readParts pattern (fuel + 1) literal ('\x7b' :: inner ++ ['\x7d'] ++ rest) =
      .ok (flush literal (part :: parts)) := by
  have hspan : (inner ++ '\x7d' :: rest).span (fun c => c != '\x7b' && c != '\x7d') =
      (inner, '\x7d' :: rest) := by
    refine span_append_cons (fun c hc => ?_) (by decide)
    have hno := hinner c hc
    rwa [isBrace, ← Bool.not_eq_true', Bool.not_or] at hno
  -- no name starts with a brace, so the opening brace is not taken for the half of a doubled one
  have hopen : ∀ behind, inner ++ '\x7d' :: rest ≠ '\x7b' :: behind := by
    intro behind heq
    cases inner with
    | nil => cases heq
    | cons c inner =>
      cases heq
      cases hinner _ List.mem_cons_self
  rw [List.append_assoc, List.cons_append, List.singleton_append, readParts]
  · simp only [hspan, hpart, hrest]
    rfl
  · exact hopen

/-- A path is found again behind its canonical text, which is not empty and has no white space at
its ends. -/
theorem placeholder_text (h : Nameable p) : placeholder p.text.toList = .ok (.path p) := by
  have hname : Text.trim (String.ofList p.text.toList) = p.text := by
    rw [String.ofList_toList]
    exact SourcePath.trim_of_parse h.parse_text
  have hfilled : p.text ≠ "" := by
    intro hempty
    have hread := h.parse_text
    rw [hempty] at hread
    cases hread
    revert hempty
    decide
  simp only [placeholder, hname, hfilled, h.ne_value, or_self, if_false, h.parse_text]

theorem readParts_part (hpart : part.isLiteral = false) (hname : ∀ p, part = .path p → Nameable p)
    (hrest : readParts pattern fuel [] rest = .ok parts) :
    readParts pattern (fuel + 1) literal (part.chars ++ rest) =
      .ok (flush literal (part :: parts)) := by
  cases part with
  | literal text => cases hpart
  | value => exact readParts_placeholder (List.forall_mem_nil _) rfl hrest
  | path p =>
    have hp := hname p rfl
    exact readParts_placeholder hp.no_brace (placeholder_text hp) hrest

/-- What is written between braces is no shorter than a step. -/
theorem length_chars_pos (h : part.isLiteral = false) : 0 < part.chars.length := by
  cases part with
  | literal text => cases h
  | value | path => exact Nat.succ_pos _

theorem joined_cons (h : part.isLiteral = false) :
    joined literal (part :: parts) = flush literal (part :: joined [] parts) := by
  cases part with
  | literal text => cases h
  | value | path => rfl

/-- A written pattern is read as its parts, with literals that follow each other joined and empty
ones left out. -/
theorem readParts_write (hpaths : ∀ p, .path p ∈ parts → Nameable p)
    (hfuel : (parts.flatMap Part.chars).length ≤ fuel) :
    readParts pattern fuel literal (parts.flatMap Part.chars) = .ok (joined literal parts) := by
  induction parts generalizing literal fuel with
  | nil => cases fuel <;> rfl
  | cons part parts ih =>
    have hrest : ∀ p, .path p ∈ parts → Nameable p :=
      fun p hp => hpaths p (List.mem_cons_of_mem _ hp)
    rw [List.flatMap_cons, List.length_append] at hfuel
    rw [List.flatMap_cons]
    cases hpart : part.isLiteral with
    | false =>
      have hpos := length_chars_pos hpart
      obtain ⟨fuel, rfl⟩ := Nat.exists_eq_add_of_le' (by omega : 1 ≤ fuel)
      rw [joined_cons hpart]
      exact readParts_part hpart (fun p hp => hpaths p (hp ▸ List.mem_cons_self))
        (ih hrest (by omega))
    | true =>
      cases part with
      | value | path => cases hpart
      | literal text =>
        -- a doubled brace takes one step, and so the fuel lasts
        have hlength : text.toList.length ≤ (Part.literal text).chars.length :=
          length_le_length_flatMap fun c _ => doubled_ne_nil c
        obtain ⟨fuel, rfl⟩ := Nat.exists_eq_add_of_le' (by omega : text.toList.length ≤ fuel)
        exact (readParts_literal text.toList).trans (ih hrest (by omega))

/-! ## Parts that are joined already -/

theorem flush_ne_nil (h : literal ≠ []) :
    flush literal parts = .literal (String.ofList literal.reverse) :: parts := by
  rw [flush, if_neg (mt List.isEmpty_iff.mp h)]

/-- Normal parts stay as they are, behind a literal if they do not start with one. -/
theorem joined_of_normal (h : Normal parts)
    (hstart : literal ≠ [] → ∀ part ∈ parts.head?, part.isLiteral = false) :
    joined literal parts = flush literal parts := by
  induction parts generalizing literal with
  | nil => rfl
  | cons part parts ih =>
    have hnormal : Normal parts :=
      ⟨fun hmem => h.filled (List.mem_cons_of_mem _ hmem), h.apart.tail⟩
    cases hpart : part.isLiteral with
    | false => rw [joined_cons hpart, ih hnormal fun hne => absurd rfl hne]; rfl
    | true =>
      cases part with
      | value | path => cases hpart
      | literal text =>
        have hempty : literal = [] := by
          by_contra hne
          cases hstart hne _ rfl
        have hfilled : text.toList.reverse ≠ [] := by
          intro hnil
          rw [List.reverse_eq_nil_iff, String.toList_eq_nil_iff] at hnil
          exact h.filled (hnil ▸ List.mem_cons_self)
        have hnext : ∀ next ∈ parts.head?, next.isLiteral = false := by
          cases parts with
          | nil => exact fun next hnext => absurd hnext (Option.not_mem_none next)
          | cons next parts =>
            rintro _ ⟨⟩
            exact h.apart.rel hpart
        rw [joined, hempty, List.append_nil, ih hnormal fun _ => hnext, flush_ne_nil hfilled,
          List.reverse_reverse, String.ofList_toList]
        rfl

end Template

namespace Operation

open Template

variable {lookup : SourcePath → Option Value} {v : Value} {literal : List Char} {part : Part}
  {parts : List Part}

/-! ## What patterns come to -/

/-- What a part of a template comes to. -/
def partText (lookup : SourcePath → Option Value) (v : Value) : Part → Except Failure String
  | .literal text => .ok text
  | .value => .ok (placeholderText v)
  | .path p =>
    match lookup p with
    | some found => .ok (placeholderText found)
    | none => .error (.placeholder p.text)

theorem render_cons : render lookup v (part :: parts) = (do
    let text ← partText lookup v part
    let more ← render lookup v parts
    .ok (text ++ more)) := by
  cases part with
  | literal | value => rfl
  | path p =>
    rw [render, partText]
    cases lookup p <;> rfl

/-- Parts come to what those before a place come to, and then those behind it. -/
theorem render_append (before after : List Part) :
    render lookup v (before ++ after) = (do
      let start ← render lookup v before
      let rest ← render lookup v after
      .ok (start ++ rest)) := by
  induction before with
  | nil =>
    show render lookup v after = render lookup v after >>= fun rest => .ok ("" ++ rest)
    simp only [String.empty_append]
    exact (bind_pure _).symm
  | cons part before ih =>
    rw [List.cons_append, render_cons, render_cons, ih]
    cases partText lookup v part with
    | error failure => rfl
    | ok text =>
      cases render lookup v before with
      | error failure => rfl
      | ok start =>
        cases render lookup v after with
        | error failure => rfl
        | ok rest => exact congrArg Except.ok String.append_assoc.symm

theorem render_literal (text : String) :
    render lookup v (.literal text :: parts) = (render lookup v parts).map (text ++ ·) := by
  rw [render_cons, partText]
  cases render lookup v parts <;> rfl

theorem render_empty : render lookup v (.literal "" :: parts) = render lookup v parts := by
  rw [render_literal]
  cases render lookup v parts with
  | error failure => rfl
  | ok text => exact congrArg Except.ok String.empty_append

theorem render_literal_literal (text other : String) :
    render lookup v (.literal text :: .literal other :: parts) =
      render lookup v (.literal (text ++ other) :: parts) := by
  rw [render_literal, render_literal, render_literal]
  cases render lookup v parts with
  | error failure => rfl
  | ok rest => exact congrArg Except.ok String.append_assoc.symm

theorem render_flush : render lookup v (flush literal parts) =
    render lookup v (.literal (String.ofList literal.reverse) :: parts) := by
  cases literal with
  | nil => exact render_empty.symm
  | cons c literal => rw [flush_ne_nil (List.cons_ne_nil c literal)]

/-- Literals that are joined and left out make no difference to what parts come to. -/
theorem render_joined : render lookup v (joined literal parts) =
    render lookup v (.literal (String.ofList literal.reverse) :: parts) := by
  induction parts generalizing literal with
  | nil => exact render_flush
  | cons part parts ih =>
    -- the text before a placeholder is complete, and that before a literal goes on with it
    cases hpart : part.isLiteral with
    | false =>
      have hrest : render lookup v (part :: joined [] parts) = render lookup v (part :: parts) := by
        rw [render_cons, ih, List.reverse_nil, String.ofList_nil, render_empty, ← render_cons]
      rw [joined_cons hpart, render_flush, render_literal, hrest, ← render_literal]
    | true =>
      cases part with
      | value | path => cases hpart
      | literal text =>
        rw [joined, ih, render_literal_literal, List.reverse_append, List.reverse_reverse,
          String.ofList_append, String.ofList_toList]

/-- A literal stands unchanged between what comes before and behind it. -/
theorem render_around (before after : List Part) (text : String) :
    render lookup v (before ++ .literal text :: after) = (do
      let start ← render lookup v before
      let rest ← render lookup v after
      .ok (start ++ text ++ rest)) := by
  rw [render_append, render_literal]
  cases render lookup v before with
  | error failure => rfl
  | ok start =>
    cases render lookup v after with
    | error failure => rfl
    | ok rest => exact congrArg Except.ok String.append_assoc.symm

end Operation

namespace Template

/-- **Templates can express any text.** A list of parts without empty literals and literals that
follow each other is read back from its pattern. Whatever the literals, what is read comes to the
same as the parts, with each literal unchanged between what stands before and behind it. -/
theorem parse_write {parts : List Part} (hpaths : ∀ p, .path p ∈ parts → Nameable p) :
    (Normal parts → parse (write parts) = .ok parts) ∧
      ∃ read, parse (write parts) = .ok read ∧ ∀ lookup v,
        Operation.render lookup v read = Operation.render lookup v parts ∧
          ∀ before text after, parts = before ++ .literal text :: after →
            Operation.render lookup v read = (do
              let start ← Operation.render lookup v before
              let rest ← Operation.render lookup v after
              .ok (start ++ text ++ rest)) := by
  have hread : parse (write parts) = .ok (joined [] parts) := by
    rw [parse, write, String.toList_ofList]
    exact readParts_write hpaths (Nat.le_refl _)
  have hrender (lookup : SourcePath → Option Value) (v : Value) :
      Operation.render lookup v (joined [] parts) = Operation.render lookup v parts := by
    rw [Operation.render_joined]
    exact Operation.render_empty
  refine ⟨fun hnormal => ?_, joined [] parts, hread, fun lookup v => ⟨hrender lookup v, ?_⟩⟩
  · rw [hread, joined_of_normal hnormal fun hne => absurd rfl hne]
    rfl
  · rintro before text after rfl
    rw [hrender, Operation.render_around]

/-- Braces of literal text before, between and behind placeholders, of which one names a path with
a key in quotes. -/
theorem parse_write_braces :
    let p : SourcePath := ⟨false, [.key "row", .wildcard, .key "first name"]⟩
    let parts : List Part :=
      [.literal "\x7b", .value, .literal "\x7d\x7b", .path p, .literal "\x7d\x7d"]
    write parts =
        "\x7b\x7b\x7b\x7d\x7d\x7d\x7b\x7b\x7brow[*][\"first name\"]\x7d\x7d\x7d\x7d\x7d" ∧
      Nameable p ∧ Normal parts ∧ parse (write parts) = .ok parts ∧
        ∃ read, parse (write parts) = .ok read ∧
          Operation.render (fun _ => some (.string "\x7d")) (.bool true) read =
            .ok "\x7btrue\x7d\x7b\x7d\x7d\x7d" := by
  intro p parts
  have htext : p.text = "row[*][\"first name\"]" := rfl
  have hp : Nameable p := by
    constructor <;> rw [htext]
    · rfl
    · simp [isBrace]
    · decide
  have hwrite : write parts =
      "\x7b\x7b\x7b\x7d\x7d\x7d\x7b\x7b\x7brow[*][\"first name\"]\x7d\x7d\x7d\x7d\x7d" := by
    simp only [write, parts, List.flatMap_cons, Part.chars, htext]
    rfl
  have hnormal : Normal parts := ⟨by decide, by decide⟩
  have hpaths : ∀ q, .path q ∈ parts → Nameable q := by
    intro q hq
    have heq : q = p := by simpa [parts] using hq
    exact heq ▸ hp
  obtain ⟨hsame, read, hread, hrender⟩ := parse_write hpaths
  refine ⟨hwrite, hp, hnormal, hsame hnormal, read, hread, ?_⟩
  rw [(hrender _ _).2 [.literal "\x7b", .value] "\x7d\x7b" [.path p, .literal "\x7d\x7d"] rfl]
  rfl

end Template

end Remap
