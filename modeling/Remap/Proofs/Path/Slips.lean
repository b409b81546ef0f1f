import Mathlib.Tactic.SplitIfs
import Remap.Proofs.Path.Canonical
import Remap.Proofs.Path.Repair

/-!
# What a repair drops

The slips that are dropped from a text are dots and white space. A repaired text is the canonical
text of the path that was meant, the path of what is left, and keeps all other characters but zeros
in front of indices. It denotes that path unless it looks like the text of an absolute one, as a
first key that starts with a dollar sign loses its dot (`repair?_meant`).
-/

namespace Remap.Path

/-- The characters of a text that are no dots and no white space. -/
def significant (text : List Char) : List Char :=
  text.filter fun c => c != '.' && !Text.isBlank c

/-- Drops the zeros in front of the digits of each index. `opened` tells whether only a bracket and
such zeros have been seen of an index. -/
def dropZeros (opened : Bool) : List Char → List Char
  | [] => []
  | c :: rest =>
    if opened && c == '0' && rest.head?.any Decimal.isDigit then dropZeros true rest
    else c :: dropZeros (c == '[') rest

/-! ## Slips -/

section Slips

variable {text kept : List Char}

theorem significant_append (a b : List Char) :
    significant (a ++ b) = significant a ++ significant b :=
  List.filter_append a b

/-- A slip is a dot or white space. -/
theorem significant_slip {c : Char} (hc : Text.isBlank c = true ∨ c = '.') (rest : List Char) :
    significant (c :: rest) = significant rest := by
  rw [significant, List.filter_cons_of_neg]
  · rfl
  · rcases hc with hc | hc <;> simp [hc]

/-- Only slips are dropped. -/
theorem significant_dropSlips (kept text : List Char) :
    significant (dropSlips kept text).reverse = significant (kept.reverse ++ text) := by
  induction text generalizing kept with
  | nil => rw [dropSlips, List.append_nil]
  | cons c rest ih =>
    have hkeep (kept : List Char) :
        significant (dropSlips (c :: kept) rest).reverse = significant (kept.reverse ++ c :: rest) := by
      rw [ih, List.reverse_cons, List.append_assoc, List.singleton_append]
    have hdrop (hc : Text.isBlank c = true ∨ c = '.') (kept : List Char) :
        significant (dropSlips kept rest).reverse = significant (kept.reverse ++ c :: rest) := by
      rw [ih, significant_append, significant_append, significant_slip hc]
    unfold dropSlips
    by_cases hblank : Text.isBlank c = true
    · rw [if_pos hblank]
      dsimp only
      split_ifs
      · exact hdrop (.inl hblank) kept
      · exact hkeep kept
    · rw [if_neg hblank]
      split
      · next before =>
        split_ifs with hdot hbracket
        · exact hdrop (.inr hdot) _
        · -- the dot before a bracket goes
          rw [ih, List.reverse_cons, List.reverse_cons, List.append_assoc, List.append_assoc,
            List.singleton_append, List.singleton_append, significant_append, significant_append,
            significant_slip (.inr rfl)]
        · exact hkeep _
      · exact hkeep _

theorem significant_dropTrailingDots (text : List Char) :
    significant (dropTrailingDots text).reverse = significant text.reverse := by
  induction text with
  | nil => rfl
  | cons c rest ih =>
    unfold dropTrailingDots
    split
    · next c rest heq =>
      cases heq
      rw [ih, List.reverse_cons (a := '.'), significant_append]
      exact (List.append_nil _).symm
    · rfl

theorem significant_clean (text : String) :
    significant (clean text).toList = significant text.toList := by
  rw [clean, String.toList_ofList, significant_dropTrailingDots, significant_dropSlips]
  rfl

end Slips

/-! ## Canonical text -/

section Spellings

variable {chars rest : List Char} {p : Spelling} {ps : List Spelling}

theorem significant_eq_self (h : ∀ c ∈ chars, Text.isBlank c = false ∧ c ≠ '.') :
    significant chars = chars := by
  apply List.filter_eq_self.mpr
  intro c hc
  obtain ⟨hblank, hdot⟩ := h c hc
  simp [hdot, hblank]

theorem PlainKey.significant_chars (key : PlainKey) : significant key.chars = key.chars := by
  apply significant_eq_self
  intro c hc
  have hkey := key.isKeyChar c hc
  simp only [Path.isKeyChar, Bool.and_eq_true, bne_iff_ne, Bool.not_eq_true'] at hkey
  exact ⟨hkey.2, hkey.1.1.1.1⟩

/-- Outside of indices nothing is dropped. -/
theorem dropZeros_append (h : '[' ∉ chars) :
    dropZeros false (chars ++ rest) = chars ++ dropZeros false rest := by
  induction chars with
  | nil => rfl
  | cons c chars ih =>
    obtain ⟨hc, hchars⟩ := not_or.mp (mt List.mem_cons.mpr h)
    have hopen : (c == '[') = false := beq_eq_false_iff_ne.mpr (Ne.symm hc)
    rw [List.cons_append, dropZeros, hopen, ih hchars]
    rfl

theorem not_mem_of_isDigit {c : Char} (hc : Decimal.isDigit c = false)
    (h : ∀ d ∈ chars, Decimal.isDigit d = true) : c ∉ chars := by
  intro hmem
  rw [h c hmem] at hc
  cases hc

/-- Of an index the digits of its number are left. -/
theorem dropZeros_digits (hne : chars ≠ []) (h : ∀ d ∈ chars, Decimal.isDigit d = true) :
    dropZeros true (chars ++ ']' :: rest) =
      Decimal.Layout.natText (Decimal.ofDigits chars) ++ ']' :: dropZeros false rest := by
  induction chars with
  | nil => exact absurd rfl hne
  | cons c chars ih =>
    obtain ⟨hc, hchars⟩ := List.forall_mem_cons.mp h
    have hopen : (c == '[') = false := by
      rw [beq_eq_false_iff_ne]
      rintro rfl
      cases hc
    have hkeep : dropZeros false (chars ++ ']' :: rest) = chars ++ ']' :: dropZeros false rest :=
      dropZeros_append (not_mem_of_isDigit rfl hchars)
    rw [List.cons_append, dropZeros, hopen, hkeep]
    by_cases hzero : c = '0'
    · subst hzero
      cases chars with
      | nil => rfl
      | cons d chars =>
        have hd := hchars d List.mem_cons_self
        have hvalue : Decimal.ofDigits ('0' :: d :: chars) = Decimal.ofDigits (d :: chars) := rfl
        rw [if_pos (by simp [hd]), hvalue]
        exact ih (List.cons_ne_nil d chars) hchars
    · rw [(Decimal.Layout.natText_ofDigits hzero h).2, if_neg (by simp [hzero]), List.cons_append]

theorem significant_brackets (h : ∀ c ∈ chars, Decimal.isDigit c = true) :
    significant ('[' :: (chars ++ [']'])) = '[' :: (chars ++ [']']) := by
  apply significant_eq_self
  refine List.forall_mem_cons.mpr ⟨⟨rfl, by decide⟩, List.forall_mem_append.mpr ⟨?_, ?_⟩⟩
  · exact fun c hc => not_slip_of_isDigit (h c hc)
  · exact List.forall_mem_singleton.mpr ⟨rfl, by decide⟩

/-- A segment is written with what its spelling keeps. -/
theorem significant_segmentText (hquote : '"' ∉ p.text) (atStart : Bool) (rest : List Char) :
    significant (segmentText atStart p.segment) ++ dropZeros false rest =
      dropZeros false (significant p.text ++ rest) := by
  cases p with
  | key key =>
    have hplain : isPlainKey (String.ofList key.chars) = true := by
      rw [isPlainKey, String.toList_ofList]
      exact List.all_eq_true.mpr key.isKeyChar
    have hopen : '[' ∉ key.chars := by
      intro hmem
      have hkey := key.isKeyChar _ hmem
      revert hkey
      decide
    rw [Spelling.segment, segmentText, if_pos hplain, String.toList_ofList, Spelling.text,
      significant_slip (.inr rfl), key.significant_chars, dropZeros_append hopen]
    cases atStart with
    | true => rw [if_pos rfl, List.nil_append, key.significant_chars]
    | false =>
      rw [if_neg Bool.false_ne_true, List.singleton_append, significant_slip (.inr rfl),
        key.significant_chars]
  | index digits =>
    have hnumber : ∀ c ∈ Decimal.Layout.natText (Decimal.ofDigits digits.chars),
        Decimal.isDigit c = true := by
      rw [Decimal.Layout.natText_eq]
      exact fun c hc => Decimal.isDigit_of_mem_toDigits hc
    rw [Spelling.segment, segmentText, List.cons_append, Spelling.text, significant_brackets hnumber,
      significant_brackets digits.isDigit]
    show _ = '[' :: dropZeros true ((digits.chars ++ [']']) ++ rest)
    rw [List.append_assoc, List.singleton_append, dropZeros_digits digits.ne_nil digits.isDigit]
    simp
  | wildcard => rfl
  | quoted key => exact absurd (List.mem_cons_of_mem _ List.mem_cons_self) hquote

theorem significant_segments (hquote : '"' ∉ ps.flatMap Spelling.text) :
    significant ((ps.map Spelling.segment).flatMap (segmentText false)) =
      dropZeros false (significant (ps.flatMap Spelling.text)) := by
  induction ps with
  | nil => rfl
  | cons p ps ih =>
    rw [List.flatMap_cons, List.mem_append, not_or] at hquote
    rw [List.map_cons, List.flatMap_cons, List.flatMap_cons, significant_append,
      significant_append, ih hquote.2, significant_segmentText hquote.1]

/-- A path is written with what a spelling of it keeps. -/
theorem significant_render {f : Form} (hquote : '"' ∉ f.text) :
    significant (render f.path.absolute f.path.segments) = dropZeros false (significant f.text) := by
  have start {p : Spelling} {ps : List Spelling} (hquote : '"' ∉ (p :: ps).flatMap Spelling.text) :
      significant (segmentText true p.segment ++
        (ps.map Spelling.segment).flatMap (segmentText false)) =
          dropZeros false (significant ((p :: ps).flatMap Spelling.text)) := by
    rw [List.flatMap_cons, List.mem_append, not_or] at hquote
    rw [significant_append, significant_segments hquote.2, significant_segmentText hquote.1,
      List.flatMap_cons, significant_append]
  cases f with
  | empty | dot => rfl
  | absolute ps =>
    have hps : '"' ∉ ps.flatMap Spelling.text := mt (List.mem_cons_of_mem _) hquote
    exact congrArg ('$' :: ·) (significant_segments hps)
  | keyed first hfirst ps =>
    -- a dot before the first key makes no difference
    have hkey : '"' ∉ (Spelling.key first :: ps).flatMap Spelling.text := by
      refine mt List.mem_cons.mp (not_or.mpr ⟨by decide, hquote⟩)
    rw [Form.text, ← significant_slip (.inr rfl)]
    exact start hkey
  | bare first ps => exact start hquote

theorem mem_of_mem_dropZeros {opened : Bool} {c : Char} (h : c ∈ dropZeros opened chars) :
    c ∈ chars := by
  induction chars generalizing opened with
  | nil => exact h
  | cons d chars ih =>
    rw [dropZeros] at h
    split at h
    · exact List.mem_cons_of_mem _ (ih h)
    · rcases List.mem_cons.mp h with rfl | h
      · exact List.mem_cons_self
      · exact List.mem_cons_of_mem _ (ih h)

theorem quote_mem_significant : '"' ∈ significant chars ↔ '"' ∈ chars := by
  rw [significant, List.mem_filter, and_iff_left (by decide)]

end Spellings

/-! ## Repaired texts -/

section Repaired

variable {text meant : String} {p : SourcePath}

/-- The path that is meant by a text without quotes is written without quotes. -/
theorem significant_text (hp : SourcePath.parse (clean text) = .ok p) (hquote : '"' ∉ text.toList) :
    significant p.text.toList = dropZeros false (significant text.toList) ∧ '"' ∉ p.text.toList := by
  obtain ⟨f, hf, rfl⟩ := SourcePath.parse_iff_form.mp hp
  have hclean : '"' ∉ f.text := by
    rw [hf, ← quote_mem_significant, significant_clean, quote_mem_significant]
    exact hquote
  have hrender := significant_render hclean
  rw [hf, significant_clean] at hrender
  rw [SourcePath.text, String.toList_ofList]
  refine ⟨hrender, fun hmem => hquote ?_⟩
  rw [← quote_mem_significant, hrender] at hmem
  exact quote_mem_significant.mp (mem_of_mem_dropZeros hmem)

/-- Of the text of a path only dots are to be dropped. -/
theorem filter_text (hp : SourcePath.parse text = .ok p) (hquote : '"' ∉ p.text.toList) :
    p.text.toList.filter (· != '.') = significant p.text.toList := by
  apply List.filter_congr
  intro c hc
  have hblank : Text.isBlank c = false := by
    rcases tidy_text hp hquote with hdot | htidy
    · rw [hdot] at hc
      rw [List.mem_singleton.mp hc]
      rfl
    · exact htidy.blank c hc
  simp [hblank]

/-- Behind the mark of an absolute path there is no key without a dot. -/
theorem exists_parse_iff_eq_nil {name : List Char} {segments : List Segment}
    (hname : ∀ c ∈ name, isKeyChar c = true) (hsegments : ∀ s ∈ segments, Spelled s) :
    (∃ q, SourcePath.parse
      (String.ofList ('$' :: (name ++ segments.flatMap (segmentText false)))) = .ok q) ↔
        name = [] := by
  constructor
  · rintro ⟨q, hq⟩
    obtain ⟨f, hf, -⟩ := SourcePath.parse_iff_form.mp hq
    rw [String.toList_ofList] at hf
    have hindex := formIndex_text f
    rw [hf] at hindex
    cases f with
    | empty | dot | keyed | bare => cases hindex
    | absolute ps =>
      cases name with
      | nil => rfl
      | cons c name =>
        have hc := endsKey_spellings ps c (by rw [(List.cons.inj hf).2]; rfl)
        rw [hname c List.mem_cons_self] at hc
        cases hc
  · rintro rfl
    refine ⟨⟨true, segments⟩, SourcePath.parse_eq_ok_iff.mpr ?_⟩
    rw [String.toList_ofList]
    exact readChars_absolute hsegments

/-- The text of a path that looks like that of an absolute one is read as such, if at all. -/
theorem exists_parse_text_iff (hp : SourcePath.parse text = .ok p) :
    (∃ q, SourcePath.parse p.text = .ok q) ↔ p.absolute = true ∨
      looksAbsolute p.segments = false ∨ p.segments.head? = some (.key "$") := by
  by_cases hback : p.absolute = true ∨ looksAbsolute p.segments = false
  · refine iff_of_true ⟨p, (source_parse_text_iff hp).mpr hback⟩ ?_
    rw [← or_assoc]
    exact .inl hback
  rw [← or_assoc, or_iff_right hback]
  rw [not_or, Bool.not_eq_true, Bool.not_eq_false] at hback
  obtain ⟨name, tail, others, hsegments, hname, htail, htext⟩ := exists_of_looksAbsolute hback.2
  have hspelled := SourcePath.spelled_of_parse hp
  rw [hsegments] at hspelled
  rw [SourcePath.text, hback.1, htext,
    exists_parse_iff_eq_nil htail (List.forall_mem_cons.mp hspelled).2, hsegments, List.head?_cons,
    Option.some.injEq, Segment.key.injEq, ← String.toList_inj, hname]
  exact (List.cons_inj_right '$').symm

end Repaired

/-- **What a repair keeps**: a repaired text needs no repair and differs from its text in dots,
white space and zeros in front of indices only. It is the canonical text of what is left of the
text without slips and denotes the same path, unless this looks absolute and is not. -/
theorem repair?_meant {text meant : String} (h : repair? text = some meant) :
    repair? meant = none ∧
      meant.toList.filter (· != '.') = dropZeros false (significant text.toList) ∧
        ∃ p, SourcePath.parse (clean text) = .ok p ∧ meant = p.text ∧
          (SourcePath.parse meant = .ok p ↔
            p.absolute = true ∨ looksAbsolute p.segments = false) ∧
          ((∃ q, SourcePath.parse meant = .ok q) ↔ p.absolute = true ∨
            looksAbsolute p.segments = false ∨ p.segments.head? = some (.key "$")) := by
  obtain ⟨-, hquote, p, hp, rfl⟩ := repair?_eq_some_iff.mp h
  obtain ⟨hsignificant, hno⟩ := significant_text hp hquote
  refine ⟨repair?_of_repair? h, ?_, p, hp, rfl, source_parse_text_iff hp, exists_parse_text_iff hp⟩
  rw [filter_text hp hno, hsignificant]

/-- Slips at every place of a text, and zeros in front of an index. -/
theorem repair?_meant_row :
    repair? " a . [07] ..b. " = some "a[7].b" ∧ repair? "a[7].b" = none ∧
      "a[7]b".toList = dropZeros false (significant " a . [07] ..b. ".toList) ∧
        ∃ p, SourcePath.parse (clean " a . [07] ..b. ") = .ok p ∧
          SourcePath.parse "a[7].b" = .ok p := by
  have hbad : SourcePath.parse " a . [07] ..b. " = .error ⟨.whiteSpace, 0⟩ := rfl
  have hpath : SourcePath.parse (clean " a . [07] ..b. ") =
      .ok ⟨false, [.key "a", .index 7, .key "b"]⟩ := rfl
  have hrepair : repair? " a . [07] ..b. " = some "a[7].b" :=
    repair?_eq_some_iff.mpr ⟨⟨_, hbad⟩, by decide, _, hpath, by decide +kernel⟩
  obtain ⟨hagain, hkept, p, hp, -, hback, -⟩ := repair?_meant hrepair
  rw [hpath] at hp
  cases hp
  exact ⟨hrepair, hagain, hkept, _, hpath, hback.mpr (.inr (by decide))⟩

/-- A first key that starts with a dollar sign loses the dot that tells it from the mark of an
absolute path: one repaired text is no path, and another is that of an absolute one. -/
theorem repair?_dollar :
    repair? ".$a." = some "$a" ∧ SourcePath.parse (clean ".$a.") = .ok ⟨false, [.key "$a"]⟩ ∧
      SourcePath.parse "$a" = .error ⟨.unexpected 'a', 1⟩ ∧
        repair? ".$ .b" = some "$.b" ∧
          SourcePath.parse (clean ".$ .b") = .ok ⟨false, [.key "$", .key "b"]⟩ ∧
            SourcePath.parse "$.b" = .ok ⟨true, [.key "b"]⟩ := by
  have hkey : SourcePath.parse ".$a." = .error ⟨.missingKey, 3⟩ := rfl
  have hmark : SourcePath.parse ".$ .b" = .error ⟨.whiteSpace, 2⟩ := rfl
  have hkeyPath : SourcePath.parse (clean ".$a.") = .ok ⟨false, [.key "$a"]⟩ := rfl
  have hmarkPath : SourcePath.parse (clean ".$ .b") = .ok ⟨false, [.key "$", .key "b"]⟩ := rfl
  refine ⟨?_, hkeyPath, rfl, ?_, hmarkPath, rfl⟩
  · exact repair?_eq_some_iff.mpr ⟨⟨_, hkey⟩, by decide, _, hkeyPath, rfl⟩
  · exact repair?_eq_some_iff.mpr ⟨⟨_, hmark⟩, by decide, _, hmarkPath, rfl⟩

end Remap.Path
