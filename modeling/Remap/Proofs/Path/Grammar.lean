import Remap.Path.Parser
import Remap.Proofs.Lists
import Remap.Proofs.Results
import Remap.Proofs.Text.Utf8

/-!
# The grammar of paths

A path is spelled as the empty text, as a dot, or by segments with a dollar sign, a key or nothing
before them, and each segment is spelled on its own. The texts that are read are exactly those
with such a form, with the anchor and the segments of the form; no text has two forms, and a text
without one is rejected at the start of one of its characters (`parse_grammar`).
-/

namespace Remap

namespace Path

/-- A key outside quotes. -/
@[ext]
structure PlainKey where
  chars : List Char
  ne_nil : chars ≠ []
  isKeyChar : ∀ c ∈ chars, isKeyChar c = true

/-- A key in quotes. -/
@[ext]
structure QuotedKey where
  chars : List Char
  ne_nil : chars ≠ []
  no_quote : '"' ∉ chars

/-- The digits of an index, which fits 64 bits. -/
@[ext]
structure IndexDigits where
  chars : List Char
  ne_nil : chars ≠ []
  isDigit : ∀ c ∈ chars, Decimal.isDigit c = true
  fits : Decimal.ofDigits chars < indexCount

/-- How a segment is spelled. -/
inductive Spelling where
  | key (name : PlainKey)
  | index (digits : IndexDigits)
  | wildcard
  | quoted (name : QuotedKey)

namespace Spelling

def text : Spelling → List Char
  | key name => '.' :: name.chars
  | index digits => '[' :: (digits.chars ++ [']'])
  | wildcard => ['[', '*', ']']
  | quoted name => '[' :: '"' :: (name.chars ++ ['"', ']'])

def segment : Spelling → Segment
  | key name => .key (String.ofList name.chars)
  | index digits => .index (Decimal.ofDigits digits.chars)
  | wildcard => .wildcard
  | quoted name => .key (String.ofList name.chars)

end Spelling

/-- How a path is spelled. A first key without a dot does not start with the mark of an absolute
path, and segments alone are at least one, as the empty text is a form of its own. -/
inductive Form where
  | empty
  | dot
  | absolute (segments : List Spelling)
  | keyed (first : PlainKey) (hfirst : first.chars.head? ≠ some '$') (rest : List Spelling)
  | bare (first : Spelling) (rest : List Spelling)

namespace Form

def text : Form → List Char
  | empty => []
  | dot => ['.']
  | absolute segments => '$' :: segments.flatMap Spelling.text
  | keyed first _ rest => first.chars ++ rest.flatMap Spelling.text
  | bare first rest => first.text ++ rest.flatMap Spelling.text

/-- The path that is spelled. -/
def path : Form → SourcePath
  | empty | dot => ⟨false, []⟩
  | absolute segments => ⟨true, segments.map Spelling.segment⟩
  | keyed first _ rest => ⟨false, .key (String.ofList first.chars) :: rest.map Spelling.segment⟩
  | bare first rest => ⟨false, first.segment :: rest.map Spelling.segment⟩

end Form

/-! ## Segments -/

section Segments

variable {text rest : List Char} {s : Segment} {segments : List Segment} {p q : Spelling}
  {ps qs : List Spelling}

/-- Whether a rest of a path may follow a key. -/
def EndsKey (rest : List Char) : Prop := ∀ c ∈ rest.head?, isKeyChar c = false

theorem span_isKeyChar {name : List Char} (hname : ∀ c ∈ name, isKeyChar c = true)
    (hrest : EndsKey rest) : (name ++ rest).span isKeyChar = (name, rest) := by
  cases rest with
  | nil => rw [List.append_nil, span_eq_self hname]
  | cons c rest => exact span_append_cons hname (hrest c rfl)

/-- A spelled segment starts with a mark. -/
theorem Spelling.exists_text_eq (p : Spelling) :
    ∃ c tail, p.text = c :: tail ∧ (c = '.' ∨ c = '[') := by
  cases p with
  | key name => exact ⟨_, _, rfl, .inl rfl⟩
  | index digits => exact ⟨_, _, rfl, .inr rfl⟩
  | wildcard => exact ⟨_, _, rfl, .inr rfl⟩
  | quoted name => exact ⟨_, _, rfl, .inr rfl⟩

theorem Spelling.text_ne_nil (p : Spelling) : p.text ≠ [] := by
  obtain ⟨c, tail, htext, -⟩ := p.exists_text_eq
  rw [htext]
  exact List.cons_ne_nil _ _

theorem endsKey_spellings (ps : List Spelling) : EndsKey (ps.flatMap Spelling.text) := by
  cases ps with
  | nil => exact fun c hc => absurd hc (Option.not_mem_none c)
  | cons p ps =>
    obtain ⟨c, tail, htext, hc⟩ := p.exists_text_eq
    rw [List.flatMap_cons, htext, List.cons_append]
    intro d hd
    cases hd
    rcases hc with rfl | rfl <;> decide

theorem readBracket_digits (digits : IndexDigits) :
    readBracket ('[' :: (digits.chars ++ ']' :: rest)) =
      .ok (.index (Decimal.ofDigits digits.chars), rest) := by
  obtain ⟨chars, hne, hdigits, hfits⟩ := digits
  have hspan : (chars ++ ']' :: rest).span Decimal.isDigit = (chars, ']' :: rest) :=
    span_append_cons hdigits (by decide)
  cases chars with
  | nil => exact absurd rfl hne
  | cons d chars =>
    have hd : Decimal.isDigit d = true := hdigits d List.mem_cons_self
    unfold readBracket
    -- a digit is told from the star and the quote that may follow a bracket
    split
    case h_1 heq | h_2 heq =>
      rw [(List.cons.inj heq).1] at hd
      cases hd
    case h_3 heq =>
      rw [(List.cons.inj heq).1] at hd
      cases hd
    case h_4 =>
      simp only [List.drop_succ_cons, List.drop_zero, hspan, if_pos hfits,
        List.isEmpty_cons, Bool.false_eq_true, if_false]

theorem readBracket_key {name : List Char} (hname : name ≠ []) (hquote : '"' ∉ name) :
    readBracket ('[' :: '"' :: (name ++ '"' :: ']' :: rest)) =
      .ok (.key (String.ofList name), rest) := by
  have hspan : (name ++ '"' :: ']' :: rest).span (· != '"') = (name, '"' :: ']' :: rest) :=
    span_append_cons (fun c hc => bne_iff_ne.mpr fun heq => hquote (heq ▸ hc)) (by decide)
  have hfilled : name.isEmpty = false := List.isEmpty_eq_false_iff.mpr hname
  simp only [readBracket, List.drop_succ_cons, List.drop_zero, hspan, hfilled,
    Bool.false_eq_true, if_false]

/-- A spelled segment is read, whatever may follow it. -/
theorem readSegment_spelling (p : Spelling) (hrest : EndsKey rest) :
    readSegment (p.text ++ rest) = .ok (p.segment, rest) := by
  cases p with
  | key name =>
    have hfilled : name.chars.isEmpty = false := List.isEmpty_eq_false_iff.mpr name.ne_nil
    rw [Spelling.text, List.cons_append, readSegment, span_isKeyChar name.isKeyChar hrest]
    simp only [hfilled, Bool.false_eq_true, if_false]
    rfl
  | index digits =>
    rw [Spelling.text, List.cons_append, List.append_assoc, readSegment]
    exact readBracket_digits digits
  | wildcard => rfl
  | quoted name =>
    rw [Spelling.text, List.cons_append, List.cons_append, List.append_assoc, readSegment]
    exact readBracket_key name.ne_nil name.no_quote

/-- What is read between brackets is spelled there. -/
theorem exists_spelling_of_readBracket (h : readBracket ('[' :: text) = .ok (s, rest)) :
    ∃ p : Spelling, '[' :: text = p.text ++ rest ∧ p.segment = s := by
  unfold readBracket at h
  rw [List.drop_one, List.tail_cons] at h
  split at h
  · cases h
    exact ⟨.wildcard, rfl, rfl⟩
  · cases h
  · next tail =>
    cases hspan : tail.span (· != '"') with
    | mk name others =>
      obtain ⟨rfl, hname, hquote⟩ := of_span_eq hspan
      rw [hspan] at h
      dsimp only at h
      split at h
      · cases h
      · next mark rest =>
        split at h
        · cases h
        · next hfilled =>
          cases h
          have hmark : mark = '"' := by simpa using hquote mark rfl
          have hno : '"' ∉ name := fun hmem => by simpa using hname '"' hmem
          refine ⟨.quoted ⟨name, mt List.isEmpty_iff.mpr hfilled, hno⟩, ?_, rfl⟩
          simp [Spelling.text, hmark]
      · cases h
  · cases hspan : text.span Decimal.isDigit with
    | mk digits tail =>
      rw [hspan] at h
      dsimp only at h
      obtain ⟨rfl, hdigits, -⟩ := of_span_eq hspan
      split at h
      · cases h
      · next hfilled =>
        split at h
        · split at h
          · next hfits =>
            cases h
            refine ⟨.index ⟨digits, mt List.isEmpty_iff.mpr hfilled, hdigits, hfits⟩, ?_, rfl⟩
            simp [Spelling.text]
          · cases h
        · cases h

theorem exists_spelling_of_readSegment (h : readSegment text = .ok (s, rest)) :
    ∃ p : Spelling, text = p.text ++ rest ∧ p.segment = s := by
  unfold readSegment at h
  split at h
  · next tail =>
    cases hspan : tail.span isKeyChar with
    | mk name others =>
      obtain ⟨rfl, hname, -⟩ := of_span_eq hspan
      rw [hspan] at h
      dsimp only at h
      split at h
      · cases h
      · next hfilled =>
        cases h
        exact ⟨.key ⟨name, mt List.isEmpty_iff.mpr hfilled, hname⟩, rfl, rfl⟩
  · exact exists_spelling_of_readBracket h
  · cases h
  · cases h

/-- The segments that are read are those that are spelled, if each character may take a step. -/
theorem readSegments_eq_ok_iff {fuel : Nat} (hfuel : text.length ≤ fuel) :
    readSegments fuel text = .ok segments ↔
      ∃ ps : List Spelling, ps.flatMap Spelling.text = text ∧ ps.map Spelling.segment = segments := by
  constructor
  · intro h
    induction fuel generalizing text segments with
    | zero =>
      cases h
      exact ⟨[], (List.eq_nil_of_length_eq_zero (Nat.le_zero.mp hfuel)).symm, rfl⟩
    | succ fuel ih =>
      cases text with
      | nil =>
        cases h
        exact ⟨[], rfl, rfl⟩
      | cons c text =>
        simp only [readSegments] at h
        obtain ⟨⟨first, rest⟩, hfirst, h⟩ := bind_eq_ok_iff.mp h
        obtain ⟨others, hothers, h⟩ := bind_eq_ok_iff.mp h
        cases h
        obtain ⟨p, htext, rfl⟩ := exists_spelling_of_readSegment hfirst
        have hless : rest.length < (c :: text).length := by
          rw [htext, List.length_append]
          exact Nat.lt_add_of_pos_left (List.length_pos_iff.mpr p.text_ne_nil)
        obtain ⟨ps, rfl, rfl⟩ := ih (Nat.le_of_lt_succ (hless.trans_le hfuel)) hothers
        exact ⟨p :: ps, htext.symm, rfl⟩
  · rintro ⟨ps, rfl, rfl⟩
    induction ps generalizing fuel with
    | nil => cases fuel <;> rfl
    | cons p ps ih =>
      have hpos := List.length_pos_iff.mpr p.text_ne_nil
      rw [List.flatMap_cons, List.length_append] at hfuel
      obtain ⟨fuel, rfl⟩ := Nat.exists_eq_succ_of_ne_zero (n := fuel) (by omega)
      have hne : p.text ++ ps.flatMap Spelling.text ≠ [] :=
        List.append_ne_nil_of_left_ne_nil p.text_ne_nil _
      rw [List.flatMap_cons, readSegments, readSegment_spelling p (endsKey_spellings ps)]
      · show (readSegments fuel _ >>= _) = _
        rw [ih (by omega)]
        rfl
      · exact hne

/-! ## One spelling only -/

/-- A segment has one spelling for a text. -/
theorem Spelling.eq_of_text_eq (hsegment : p.segment = q.segment) (h : p.text = q.text) : p = q := by
  cases p with
  | key name =>
    cases q with
    | key other => exact congrArg Spelling.key (PlainKey.ext (List.cons.inj h).2)
    | quoted other => cases h
    | index | wildcard => cases hsegment
  | index digits =>
    cases q with
    | index other =>
      have hchars := List.append_cancel_right (List.cons.inj h).2
      exact congrArg Spelling.index (IndexDigits.ext hchars)
    | key | wildcard | quoted => cases hsegment
  | wildcard =>
    cases q with
    | wildcard => rfl
    | key | index | quoted => cases hsegment
  | quoted name =>
    cases q with
    | quoted other =>
      have hchars := List.append_cancel_right (List.cons.inj (List.cons.inj h).2).2
      exact congrArg Spelling.quoted (QuotedKey.ext hchars)
    | key other => cases h
    | index | wildcard => cases hsegment

/-- Segments are cut in one way only: what is read of a text tells the first of them. -/
theorem spellings_eq (h : ps.flatMap Spelling.text = qs.flatMap Spelling.text) : ps = qs := by
  induction ps generalizing qs with
  | nil =>
    cases qs with
    | nil => rfl
    | cons q qs =>
      rw [List.flatMap_nil, List.flatMap_cons] at h
      exact absurd (List.append_eq_nil_iff.mp h.symm).1 q.text_ne_nil
  | cons p ps ih =>
    cases qs with
    | nil =>
      rw [List.flatMap_nil, List.flatMap_cons] at h
      exact absurd (List.append_eq_nil_iff.mp h).1 p.text_ne_nil
    | cons q qs =>
      rw [List.flatMap_cons, List.flatMap_cons] at h
      have hp := readSegment_spelling p (endsKey_spellings ps)
      have hq := readSegment_spelling q (endsKey_spellings qs)
      rw [h, hq, Except.ok.injEq, Prod.mk.injEq] at hp
      obtain ⟨hsegment, hrest⟩ := hp
      rw [hrest] at h
      rw [Spelling.eq_of_text_eq hsegment.symm (List.append_cancel_right h), ih hrest.symm]

end Segments

/-! ## Forms -/

section Forms

variable {text : List Char} {absolute : Bool} {segments : List Segment} {f g : Form}

theorem PlainKey.exists_chars_eq (key : PlainKey) :
    ∃ c name, key.chars = c :: name ∧ Path.isKeyChar c = true := by
  obtain ⟨c, name, hchars⟩ := List.exists_cons_of_ne_nil key.ne_nil
  exact ⟨c, name, hchars, key.isKeyChar c (hchars ▸ List.mem_cons_self)⟩

/-- Which form a text may have, by its first character. -/
def formIndex : List Char → Nat
  | [] => 0
  | ['.'] => 1
  | '$' :: _ => 2
  | c :: _ => if isKeyChar c then 3 else 4

theorem formIndex_text (f : Form) : formIndex f.text = f.ctorIdx := by
  cases f with
  | empty | dot => rfl
  | absolute segments => rfl
  | keyed first hfirst rest =>
    obtain ⟨c, name, hchars, hc⟩ := first.exists_chars_eq
    rw [Form.text, hchars, List.cons_append]
    rw [hchars, List.head?_cons, ne_eq, Option.some.injEq] at hfirst
    rw [formIndex, if_pos hc]
    · rfl
    · intro heq
      cases heq
      cases hc
    · exact hfirst
  | bare first rest =>
    rw [Form.text]
    cases first with
    | key name =>
      obtain ⟨c, name, hchars, -⟩ := name.exists_chars_eq
      rw [Spelling.text, hchars]
      rfl
    | index | wildcard | quoted => rfl

/-- No text has two forms. -/
theorem Form.eq_of_text_eq (h : f.text = g.text) : f = g := by
  have hindex : f.ctorIdx = g.ctorIdx := by
    rw [← formIndex_text, h, formIndex_text]
  cases f with
  | empty =>
    cases g with
    | empty => rfl
    | _ => cases hindex
  | dot =>
    cases g with
    | dot => rfl
    | _ => cases hindex
  | absolute ps =>
    cases g with
    | absolute qs => exact congrArg Form.absolute (spellings_eq (List.cons.inj h).2)
    | _ => cases hindex
  | keyed first hfirst ps =>
    cases g with
    | keyed other hother qs =>
      -- the key ends where the segments start
      have hspan := span_isKeyChar first.isKeyChar (endsKey_spellings ps)
      have hspan' := span_isKeyChar other.isKeyChar (endsKey_spellings qs)
      rw [Form.text, Form.text] at h
      rw [h, hspan', Prod.mk.injEq] at hspan
      obtain ⟨hchars, hrest⟩ := hspan
      obtain rfl : first = other := PlainKey.ext hchars.symm
      obtain rfl : ps = qs := spellings_eq hrest.symm
      rfl
    | _ => cases hindex
  | bare first ps =>
    cases g with
    | bare other qs =>
      have hall : (first :: ps).flatMap Spelling.text = (other :: qs).flatMap Spelling.text := h
      obtain ⟨rfl, rfl⟩ := List.cons.inj (spellings_eq hall)
      rfl
    | _ => cases hindex

/-- What is read of a text that has a form of a relative path. -/
theorem readChars_of_formIndex (hindex : 2 < formIndex text) {name rest : List Char}
    (hspan : text.span isKeyChar = (name, rest)) :
    readChars text = (readSegments rest.length rest).map fun segments =>
      (false, (if name.isEmpty then [] else [.key (String.ofList name)]) ++ segments) := by
  unfold readChars
  split
  · exact absurd hindex (Nat.not_lt_zero 2)
  · exact absurd hindex (Nat.lt_asymm (Nat.lt_succ_self 1))
  · exact absurd hindex (Nat.lt_irrefl 2)
  · rw [hspan]

/-- What is spelled is read. -/
theorem readChars_form (f : Form) : readChars f.text = .ok (f.path.absolute, f.path.segments) := by
  have hread (ps : List Spelling) := (readSegments_eq_ok_iff (Nat.le_refl _)).mpr ⟨ps, rfl, rfl⟩
  have hindex := formIndex_text f
  cases f with
  | empty | dot => rfl
  | absolute ps =>
    rw [Form.text, readChars, hread ps]
    rfl
  | keyed first hfirst ps =>
    have hspan := span_isKeyChar first.isKeyChar (endsKey_spellings ps)
    have hfilled : first.chars.isEmpty = false := List.isEmpty_eq_false_iff.mpr first.ne_nil
    have hlt : 2 < formIndex (first.chars ++ ps.flatMap Spelling.text) := Nat.lt_of_lt_of_eq
      (Nat.lt_succ_self 2) hindex.symm
    rw [Form.text, readChars_of_formIndex hlt hspan, hread ps, hfilled]
    rfl
  | bare first ps =>
    have hspan : ((first :: ps).flatMap Spelling.text).span isKeyChar =
        ([], (first :: ps).flatMap Spelling.text) :=
      span_isKeyChar (List.forall_mem_nil _) (endsKey_spellings (first :: ps))
    have hlt : 2 < formIndex ((first :: ps).flatMap Spelling.text) := Nat.lt_of_lt_of_eq
      (Nat.lt_add_of_pos_right (Nat.succ_pos 1)) hindex.symm
    have htext : (Form.bare first ps).text = (first :: ps).flatMap Spelling.text := rfl
    rw [htext, readChars_of_formIndex hlt hspan, hread]
    rfl

/-- The texts that are read are those with a form. -/
theorem readChars_eq_ok_iff : readChars text = .ok (absolute, segments) ↔
    ∃ f : Form, f.text = text ∧ f.path = ⟨absolute, segments⟩ := by
  constructor
  · intro h
    unfold readChars at h
    split at h
    · cases h
      exact ⟨.empty, rfl, rfl⟩
    · cases h
      exact ⟨.dot, rfl, rfl⟩
    · obtain ⟨read, hread, heq⟩ := map_eq_ok_iff.mp h
      cases heq
      obtain ⟨ps, rfl, rfl⟩ := (readSegments_eq_ok_iff (Nat.le_refl _)).mp hread
      exact ⟨.absolute ps, rfl, rfl⟩
    · next hne hdot hmark =>
      cases hspan : text.span isKeyChar with
      | mk name rest =>
        rw [hspan] at h
        dsimp only at h
        obtain ⟨rfl, hname, -⟩ := of_span_eq hspan
        obtain ⟨read, hread, heq⟩ := map_eq_ok_iff.mp h
        cases heq
        obtain ⟨ps, rfl, rfl⟩ := (readSegments_eq_ok_iff (Nat.le_refl _)).mp hread
        by_cases hfilled : name.isEmpty = true
        · obtain rfl := List.isEmpty_iff.mp hfilled
          cases ps with
          | nil => exact absurd rfl hne
          | cons p ps => exact ⟨.bare p ps, rfl, rfl⟩
        · have hfirst : name.head? ≠ some '$' := by
            intro hhead
            obtain ⟨tail, rfl⟩ := List.head?_eq_some_iff.mp hhead
            exact hmark _ rfl
          rw [if_neg hfilled]
          exact ⟨.keyed ⟨name, mt List.isEmpty_iff.mpr hfilled, hname⟩ hfirst ps, rfl, rfl⟩
  · rintro ⟨f, rfl, hpath⟩
    rw [readChars_form, hpath]

end Forms

/-! ## Where a text is rejected -/

section Faults

variable {text rest other : List Char} {cause : Cause}

/-- Whether a rest is what is left of a text from one of its characters on. -/
structure LeftOf (text rest : List Char) : Prop where
  ne_nil : rest ≠ []
  suffix : rest <:+ text

theorem leftOf_cons (c : Char) (text : List Char) : LeftOf (c :: text) (c :: text) :=
  ⟨List.cons_ne_nil c text, List.suffix_refl _⟩

theorem LeftOf.of_suffix (h : LeftOf other rest) (hsuffix : other <:+ text) : LeftOf text rest :=
  ⟨h.ne_nil, h.suffix.trans hsuffix⟩

theorem leftOf_of_readBracket (h : readBracket ('[' :: text) = .error (cause, rest)) :
    LeftOf ('[' :: text) rest := by
  unfold readBracket at h
  rw [List.drop_one, List.tail_cons] at h
  split at h
  · cases h
  · cases h
    exact leftOf_cons _ _
  · next tail =>
    cases hspan : tail.span (· != '"') with
    | mk name others =>
      obtain ⟨rfl, -, -⟩ := of_span_eq hspan
      rw [hspan] at h
      dsimp only at h
      split at h
      · cases h
        exact leftOf_cons _ _
      · split at h
        · cases h
          exact leftOf_cons _ _
        · cases h
      · next hne _ =>
        cases h
        have hsuffix := List.suffix_append name rest
        exact ⟨hne, (hsuffix.trans (List.suffix_cons _ _)).trans (List.suffix_cons _ _)⟩
  · dsimp only at h
    split at h
    · cases h
      exact leftOf_cons _ _
    · split at h
      · split at h
        · cases h
        · cases h
          exact leftOf_cons _ _
      · cases h
        exact leftOf_cons _ _

theorem leftOf_of_readSegment {c : Char} (h : readSegment (c :: text) = .error (cause, rest)) :
    LeftOf (c :: text) rest := by
  unfold readSegment at h
  split at h
  · next heq =>
    dsimp only at h
    split at h
    · cases h
      exact leftOf_cons _ _
    · cases h
  · next heq =>
    rw [heq] at h ⊢
    exact leftOf_of_readBracket h
  · cases h
    exact leftOf_cons _ _
  · next heq => cases heq

theorem leftOf_of_readSegments {fuel : Nat} (h : readSegments fuel text = .error (cause, rest)) :
    LeftOf text rest := by
  induction fuel generalizing text with
  | zero => cases h
  | succ fuel ih =>
    cases text with
    | nil => cases h
    | cons c text =>
      simp only [readSegments] at h
      rcases bind_eq_error_iff.mp h with h | ⟨⟨s, others⟩, hfirst, h⟩
      · exact leftOf_of_readSegment h
      · rcases bind_eq_error_iff.mp h with h | ⟨segments, -, h⟩
        · obtain ⟨p, htext, -⟩ := exists_spelling_of_readSegment hfirst
          rw [htext]
          exact (ih h).of_suffix (List.suffix_append _ _)
        · cases h

theorem leftOf_of_readChars (h : readChars text = .error (cause, rest)) : LeftOf text rest := by
  unfold readChars at h
  split at h
  · cases h
  · cases h
  · exact (leftOf_of_readSegments (map_eq_error_iff.mp h)).of_suffix (List.suffix_cons _ _)
  · cases hspan : text.span isKeyChar with
    | mk name others =>
      rw [hspan] at h
      obtain ⟨rfl, -, -⟩ := of_span_eq hspan
      exact (leftOf_of_readSegments (map_eq_error_iff.mp h)).of_suffix (List.suffix_append _ _)

end Faults

/-! ## Segments that were read

What the segments of a path can be that comes from a text. -/

section Spelled

variable {text : List Char} {segments : List Segment}

/-- Whether a segment has a spelling: keys are not empty and hold no quote, and an index fits 64
bits. -/
def Spelled : Segment → Prop
  | .key name => name ≠ "" ∧ '"' ∉ name.toList
  | .index n => n < indexCount
  | .wildcard => True

/-- What is spelled has a spelling. -/
theorem spelled_segment (p : Spelling) : Spelled p.segment := by
  have spelled_key {name : List Char} (hname : name ≠ []) (hquote : '"' ∉ name) :
      Spelled (.key (String.ofList name)) := by
    refine ⟨fun hempty => hname ?_, by rwa [String.toList_ofList]⟩
    simpa using congrArg String.toList hempty
  cases p with
  | key name =>
    apply spelled_key name.ne_nil
    intro hmem
    have hkey := name.isKeyChar _ hmem
    revert hkey
    decide
  | index digits => exact digits.fits
  | wildcard => trivial
  | quoted name => exact spelled_key name.ne_nil name.no_quote

theorem spelled_path (f : Form) : ∀ s ∈ f.path.segments, Spelled s := by
  have spelled_map (ps : List Spelling) : ∀ s ∈ ps.map Spelling.segment, Spelled s :=
    List.forall_mem_map.mpr fun p _ => spelled_segment p
  cases f with
  | empty | dot => exact List.forall_mem_nil _
  | absolute ps => exact spelled_map ps
  | keyed first _ ps =>
    exact List.forall_mem_cons.mpr ⟨spelled_segment (.key first), spelled_map ps⟩
  | bare first ps => exact spelled_map (first :: ps)

theorem spelled_of_readChars {absolute : Bool} (h : readChars text = .ok (absolute, segments)) :
    ∀ s ∈ segments, Spelled s := by
  obtain ⟨f, -, hpath⟩ := readChars_eq_ok_iff.mp h
  have hspelled := spelled_path f
  rwa [hpath] at hspelled

end Spelled

end Path

open Remap.Path

theorem SourcePath.parse_eq_ok_iff {text : String} {p : SourcePath} :
    SourcePath.parse text = .ok p ↔ readChars text.toList = .ok (p.absolute, p.segments) := by
  rw [SourcePath.parse, Path.read, map_eq_ok_iff]
  constructor
  · rintro ⟨found, hread, rfl⟩
    exact mapError_eq_ok_iff.mp hread
  · exact fun h => ⟨_, mapError_eq_ok_iff.mpr h, rfl⟩

theorem TargetPath.parse_eq_ok_iff {text : String} {q : TargetPath} :
    TargetPath.parse text = .ok q ↔
      readChars text.toList = .ok (false, q.segments) ∧ .wildcard ∉ q.segments := by
  rw [TargetPath.parse, Path.read, bind_eq_ok_iff]
  constructor
  · rintro ⟨⟨absolute, segments⟩, hread, h⟩
    dsimp only at h
    split at h
    · cases h
    · next habsolute =>
      split at h
      · cases h
      · next hwildcard =>
        cases h
        rw [Bool.not_eq_true] at habsolute
        rw [List.contains_iff_mem] at hwildcard
        exact ⟨habsolute ▸ mapError_eq_ok_iff.mp hread, hwildcard⟩
  · rintro ⟨hread, hwildcard⟩
    refine ⟨_, mapError_eq_ok_iff.mpr hread, ?_⟩
    simp [hwildcard]

/-- Every segment of a path that was read has a spelling. -/
theorem SourcePath.spelled_of_parse {text : String} {p : SourcePath}
    (h : SourcePath.parse text = .ok p) :
    ∀ s ∈ p.segments, Spelled s :=
  spelled_of_readChars (SourcePath.parse_eq_ok_iff.mp h)

/-- A path is read from the texts that are a form of it. -/
theorem SourcePath.parse_iff_form {text : String} {p : SourcePath} :
    SourcePath.parse text = .ok p ↔ ∃ f : Form, f.text = text.toList ∧ f.path = p := by
  rw [SourcePath.parse_eq_ok_iff, readChars_eq_ok_iff]

/-- A text is rejected at one of its characters. -/
theorem SourcePath.position_of_parse {text : String} {e : Path.Error}
    (h : SourcePath.parse text = .error e) :
    ∃ front back, text = front ++ back ∧ back ≠ "" ∧ e.position = front.utf8ByteSize := by
  rw [SourcePath.parse, Path.read, map_eq_error_iff] at h
  obtain ⟨⟨cause, rest⟩, hread, rfl⟩ := mapError_eq_error_iff.mp h
  obtain ⟨hne, front, htext⟩ := leftOf_of_readChars hread
  refine ⟨String.ofList front, String.ofList rest, ?_, ?_, ?_⟩
  · rw [← String.ofList_append, htext, String.ofList_toList]
  · intro hempty
    exact hne (String.ofList_inj.mp hempty)
  · show Text.byteLength text.toList - Text.byteLength rest = _
    rw [← htext, Text.byteLength_eq, Text.byteLength_eq, String.ofList_append,
      String.utf8ByteSize_append, Nat.add_sub_cancel]

namespace Path

/-- **The texts that are read are those with a form**, with the anchor and the segments of the
form. No text has two forms, and a text without one is rejected at the start of one of its
characters. -/
theorem parse_grammar (text : String) :
    (∀ p, SourcePath.parse text = .ok p ↔ ∃ f : Form, f.text = text.toList ∧ f.path = p) ∧
      (∀ f g : Form, f.text = text.toList → g.text = text.toList → f = g) ∧
        ∀ e, SourcePath.parse text = .error e →
          ∃ front back, text = front ++ back ∧ back ≠ "" ∧ e.position = front.utf8ByteSize := by
  refine ⟨fun p => SourcePath.parse_iff_form, fun f g hf hg => ?_, fun e he => ?_⟩
  · exact Form.eq_of_text_eq (hf.trans hg.symm)
  · exact SourcePath.position_of_parse he

/-- A first key, a key behind a dot, an index with zeros in front, a wildcard and a key in quotes. -/
def rowForm : Form :=
  .keyed ⟨['é'], List.cons_ne_nil _ _, List.forall_mem_singleton.mpr rfl⟩ (by decide)
    [.key ⟨['$'], List.cons_ne_nil _ _, List.forall_mem_singleton.mpr rfl⟩,
      .index ⟨['0', '0', '7'], List.cons_ne_nil _ _, List.all_eq_true.mp rfl, by decide⟩, .wildcard,
      .quoted ⟨['x', '.', 'y'], List.cons_ne_nil _ _, by decide⟩]

theorem parse_grammar_row :
    SourcePath.parse "é.$[007][*][\"x.y\"]" =
        .ok ⟨false, [.key "é", .key "$", .index 7, .wildcard, .key "x.y"]⟩ ∧
      (∀ f : Form, f.text = "é.$[007][*][\"x.y\"]".toList → f = rowForm) ∧
        SourcePath.parse "é[*].[0]" = .error ⟨.missingKey, 5⟩ ∧
          ∃ front back, "é[*].[0]" = front ++ back ∧ back ≠ "" ∧ 5 = front.utf8ByteSize := by
  obtain ⟨hread, hunique, -⟩ := parse_grammar "é.$[007][*][\"x.y\"]"
  obtain ⟨-, -, hposition⟩ := parse_grammar "é[*].[0]"
  have herror : SourcePath.parse "é[*].[0]" = .error ⟨.missingKey, 5⟩ := rfl
  refine ⟨(hread _).mpr ⟨rowForm, rfl, rfl⟩, fun f hf => ?_, herror, hposition _ herror⟩
  exact hunique f rowForm hf rfl

end Path

end Remap
