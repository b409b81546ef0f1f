import Remap.Path.Basic
import Remap.Proofs.Decimal.Digits
import Remap.Proofs.Path.Grammar

/-!
# Canonical texts are read back

The text of a path that was read denotes the path, with one exception (`parse_text`): a relative
path may start with a key that starts with a dollar sign, and its text then starts like that of an
absolute path. Texts tell the segments of two paths apart, and so the paths if these start at the
same place.
-/

namespace Remap

namespace Path

variable {s : Segment} {segments others : List Segment} {rest : List Char}

/-- Whether the text of a relative path starts with the mark of an absolute one. -/
def looksAbsolute : List Segment → Bool
  | .key name :: _ => isPlainKey name && name.toList.head? == some '$'
  | _ => false

/-! ## Segments -/

/-- A segment stands in brackets at every place, or is a key that has a dot before it unless it
starts a path. -/
theorem segmentText_cases (h : Spelled s) :
    (∃ inner, ∀ atStart, segmentText atStart s = '[' :: inner) ∨
      ∃ c name, s = .key (String.ofList (c :: name)) ∧ (∀ d ∈ c :: name, isKeyChar d = true) ∧
        segmentText true s = c :: name ∧ segmentText false s = '.' :: c :: name := by
  cases s with
  | wildcard => exact .inl ⟨_, fun _ => rfl⟩
  | index n => exact .inl ⟨_, fun _ => rfl⟩
  | key name =>
    by_cases hplain : isPlainKey name = true
    · cases hname : name.toList with
      | nil => exact absurd (String.toList_eq_nil_iff.mp hname) h.1
      | cons c rest =>
        have hchars : ∀ d ∈ c :: rest, isKeyChar d = true := hname ▸ List.all_eq_true.mp hplain
        refine .inr ⟨c, rest, ?_, hchars, ?_, ?_⟩
        · rw [← hname, String.ofList_toList]
        · rw [segmentText, if_pos hplain, hname, if_pos rfl, List.nil_append]
        · rw [segmentText, if_pos hplain, hname, if_neg Bool.false_ne_true, List.singleton_append]
    · exact .inl ⟨_, fun _ => by rw [segmentText, if_neg hplain]; rfl⟩

/-- Canonical text is one of the spellings of a segment. -/
theorem exists_spelling (h : Spelled s) :
    ∃ p : Spelling, p.segment = s ∧ p.text = segmentText false s := by
  cases s with
  | wildcard => exact ⟨.wildcard, rfl, rfl⟩
  | index n =>
    have hvalue : Decimal.ofDigits (Decimal.Layout.natText n) = n := by
      rw [Decimal.Layout.natText_eq, Decimal.ofDigits_toDigits]
    have hne : Decimal.Layout.natText n ≠ [] := by
      rw [Decimal.Layout.natText_eq]
      exact Nat.toDigits_ne_nil
    have hdigits : ∀ c ∈ Decimal.Layout.natText n, Decimal.isDigit c = true := by
      rw [Decimal.Layout.natText_eq]
      exact fun c hc => Decimal.isDigit_of_mem_toDigits hc
    have hfits : Decimal.ofDigits (Decimal.Layout.natText n) < indexCount := by
      rw [hvalue]
      exact h
    exact ⟨.index ⟨_, hne, hdigits, hfits⟩, congrArg Segment.index hvalue, rfl⟩
  | key name =>
    have hname : name.toList ≠ [] := mt String.toList_eq_nil_iff.mp h.1
    rw [segmentText]
    split
    · next hplain =>
      exact ⟨.key ⟨_, hname, List.all_eq_true.mp hplain⟩, by simp [Spelling.segment], rfl⟩
    · exact ⟨.quoted ⟨_, hname, h.2⟩, by simp [Spelling.segment], rfl⟩

theorem exists_spellings (h : ∀ s ∈ segments, Spelled s) :
    ∃ ps : List Spelling, ps.map Spelling.segment = segments ∧
      ps.flatMap Spelling.text = segments.flatMap (segmentText false) := by
  induction segments with
  | nil => exact ⟨[], rfl, rfl⟩
  | cons s segments ih =>
    obtain ⟨hs, hsegments⟩ := List.forall_mem_cons.mp h
    obtain ⟨p, rfl, hp⟩ := exists_spelling hs
    obtain ⟨ps, rfl, hps⟩ := ih hsegments
    exact ⟨p :: ps, rfl, by rw [List.flatMap_cons, hp, hps]; rfl⟩

/-! ## Paths -/

theorem readChars_absolute (h : ∀ s ∈ segments, Spelled s) :
    readChars (render true segments) = .ok (true, segments) := by
  obtain ⟨ps, rfl, hps⟩ := exists_spellings h
  have hread := readChars_form (.absolute ps)
  rwa [Form.text, hps] at hread

/-- The form of a relative path, unless it looks like an absolute one. -/
theorem exists_form (h : ∀ s ∈ segments, Spelled s) (hlooks : looksAbsolute segments = false) :
    ∃ f : Form, f.path = ⟨false, segments⟩ ∧ f.text = render false segments := by
  cases segments with
  | nil => exact ⟨.dot, rfl, rfl⟩
  | cons s segments =>
    obtain ⟨hs, hsegments⟩ := List.forall_mem_cons.mp h
    obtain ⟨ps, rfl, hps⟩ := exists_spellings hsegments
    have hrender : render false (s :: ps.map Spelling.segment) =
        segmentText true s ++ (ps.map Spelling.segment).flatMap (segmentText false) := rfl
    rw [hrender, ← hps]
    rcases segmentText_cases hs with ⟨inner, hinner⟩ | ⟨c, name, rfl, hname, htext, -⟩
    · obtain ⟨p, rfl, hp⟩ := exists_spelling hs
      rw [hinner true, ← hinner false, ← hp]
      exact ⟨.bare p ps, rfl, rfl⟩
    · have hmark : (c :: name).head? ≠ some '$' := by
        intro hhead
        rw [looksAbsolute, isPlainKey, String.toList_ofList, List.all_eq_true.mpr hname, hhead]
          at hlooks
        cases hlooks
      rw [htext]
      exact ⟨.keyed ⟨_, List.cons_ne_nil c name, hname⟩ hmark ps, rfl, rfl⟩

/-- A relative path is read back, unless it looks like an absolute one. -/
theorem readChars_relative (h : ∀ s ∈ segments, Spelled s)
    (hlooks : looksAbsolute segments = false) :
    readChars (render false segments) = .ok (false, segments) := by
  obtain ⟨f, hpath, htext⟩ := exists_form h hlooks
  exact readChars_eq_ok_iff.mpr ⟨f, htext, hpath⟩

/-- What looks like an absolute path starts with a key that has the mark of one. -/
theorem exists_of_looksAbsolute (h : looksAbsolute segments = true) :
    ∃ name tail others, segments = .key name :: others ∧ name.toList = '$' :: tail ∧
      (∀ c ∈ tail, isKeyChar c = true) ∧
        render false segments = '$' :: (tail ++ others.flatMap (segmentText false)) := by
  cases segments with
  | nil => cases h
  | cons s others =>
    cases s with
    | index n => cases h
    | wildcard => cases h
    | key name =>
      rw [looksAbsolute, Bool.and_eq_true, beq_iff_eq, List.head?_eq_some_iff] at h
      obtain ⟨hplain, tail, hname⟩ := h
      have hchars := List.all_eq_true.mp hplain
      rw [hname] at hchars
      refine ⟨name, tail, others, rfl, hname, (List.forall_mem_cons.mp hchars).2, ?_⟩
      show segmentText true (.key name) ++ others.flatMap (segmentText false) = _
      rw [segmentText, if_pos hplain, hname]
      rfl

/-- What looks like an absolute path is not read as a relative one. -/
theorem readChars_of_looksAbsolute (h : looksAbsolute segments = true) :
    readChars (render false segments) ≠ .ok (false, others) := by
  obtain ⟨name, tail, behind, -, -, -, htext⟩ := exists_of_looksAbsolute h
  intro hread
  rw [htext, readChars] at hread
  obtain ⟨segments', -, heq⟩ := map_eq_ok_iff.mp hread
  cases heq

/-- The text of an absolute path follows from that of the relative path with the same segments. -/
theorem render_true_congr (ha : ∀ s ∈ segments, Spelled s) (hb : ∀ s ∈ others, Spelled s)
    (h : render false segments = render false others) :
    render true segments = render true others := by
  have first {s : Segment} {segments : List Segment} (hs : Spelled s) :
      (∃ inner, render false (s :: segments) = '[' :: inner ∧
        render true (s :: segments) = '$' :: '[' :: inner) ∨
        ∃ c name, isKeyChar c = true ∧ render false (s :: segments) = c :: name ∧
          render true (s :: segments) = '$' :: '.' :: c :: name := by
    have hrelative : render false (s :: segments) =
        segmentText true s ++ segments.flatMap (segmentText false) := rfl
    have habsolute : render true (s :: segments) =
        '$' :: (segmentText false s ++ segments.flatMap (segmentText false)) := rfl
    rw [hrelative, habsolute]
    rcases segmentText_cases hs with ⟨inner, hinner⟩ | ⟨c, name, -, hname, hstart, hlater⟩
    · rw [hinner true, hinner false]
      exact .inl ⟨_, rfl, rfl⟩
    · rw [hstart, hlater]
      exact .inr ⟨c, _, hname c List.mem_cons_self, rfl, rfl⟩
  cases segments with
  | nil =>
    cases others with
    | nil => rfl
    | cons t others =>
      rcases first (hb t List.mem_cons_self) with ⟨inner, ht, -⟩ | ⟨c, name, hc, ht, -⟩
      · rw [ht] at h; cases h
      · rw [ht] at h; cases h; cases hc
  | cons s segments =>
    cases others with
    | nil =>
      rcases first (ha s List.mem_cons_self) with ⟨inner, hs, -⟩ | ⟨c, name, hc, hs, -⟩
      · rw [hs] at h; cases h
      · rw [hs] at h; cases h; cases hc
    | cons t others =>
      rcases first (ha s List.mem_cons_self) with ⟨inner, hs, hs'⟩ | ⟨c, name, hc, hs, hs'⟩ <;>
        rcases first (hb t List.mem_cons_self) with ⟨inner', ht, ht'⟩ | ⟨d, name', hd, ht, ht'⟩ <;>
        rw [hs, ht] at h <;> cases h
      · rw [hs', ht']
      · cases hd
      · cases hc
      · rw [hs', ht']

/-- Segments are told apart by their texts. -/
theorem render_inj {absolute : Bool} (ha : ∀ s ∈ segments, Spelled s)
    (hb : ∀ s ∈ others, Spelled s) (h : render absolute segments = render absolute others) :
    segments = others := by
  have htrue : render true segments = render true others := by
    cases absolute with
    | true => exact h
    | false => exact render_true_congr ha hb h
  have hread := readChars_absolute ha
  rw [htrue, readChars_absolute hb] at hread
  cases hread
  rfl

/-! ## Texts of paths -/

section Paths

variable {text other : String} {p p' : SourcePath} {q q' : TargetPath}

theorem source_parse_text_iff (hp : SourcePath.parse text = .ok p) :
    SourcePath.parse p.text = .ok p ↔ p.absolute = true ∨ looksAbsolute p.segments = false := by
  have hspelled := SourcePath.spelled_of_parse hp
  obtain ⟨absolute, segments⟩ := p
  rw [SourcePath.parse_eq_ok_iff, SourcePath.text, String.toList_ofList]
  cases absolute with
  | true => exact iff_of_true (readChars_absolute hspelled) (.inl rfl)
  | false =>
    constructor
    · intro hread
      rw [← Bool.not_eq_true]
      exact .inr fun hlooks => readChars_of_looksAbsolute hlooks hread
    · rintro (⟨⟨⟩⟩ | hlooks)
      exact readChars_relative hspelled hlooks

theorem target_parse_text_iff (hq : TargetPath.parse text = .ok q) :
    TargetPath.parse q.text = .ok q ↔ looksAbsolute q.segments = false := by
  obtain ⟨hread, hwildcard⟩ := TargetPath.parse_eq_ok_iff.mp hq
  rw [TargetPath.parse_eq_ok_iff, TargetPath.text, String.toList_ofList, and_iff_left hwildcard]
  constructor
  · intro hread
    rw [← Bool.not_eq_true]
    exact fun hlooks => readChars_of_looksAbsolute hlooks hread
  · exact readChars_relative (spelled_of_readChars hread)

/-- Two source paths of one text are the same if they start at the same place. -/
theorem source_eq_iff (hp : SourcePath.parse text = .ok p) (hp' : SourcePath.parse other = .ok p')
    (htext : p.text = p'.text) : p = p' ↔ p.absolute = p'.absolute := by
  constructor
  · rintro rfl
    rfl
  · intro hanchor
    rw [SourcePath.text, SourcePath.text, hanchor, String.ofList_inj] at htext
    have hsegments := render_inj (SourcePath.spelled_of_parse hp) (SourcePath.spelled_of_parse hp')
      htext
    cases p
    cases p'
    cases hanchor
    cases hsegments
    rfl

theorem target_eq (hq : TargetPath.parse text = .ok q) (hq' : TargetPath.parse other = .ok q')
    (htext : q.text = q'.text) : q = q' := by
  have hspelled := spelled_of_readChars (TargetPath.parse_eq_ok_iff.mp hq).1
  have hspelled' := spelled_of_readChars (TargetPath.parse_eq_ok_iff.mp hq').1
  rw [TargetPath.text, TargetPath.text, String.ofList_inj] at htext
  cases q
  cases q'
  cases render_inj hspelled hspelled' htext
  rfl

end Paths

/-- **A canonical text denotes its path**, unless the path is relative and looks absolute, and
paths that start at the same place have different canonical texts. -/
theorem parse_text (text : String) :
    (∀ p, SourcePath.parse text = .ok p →
      (SourcePath.parse p.text = .ok p ↔ p.absolute = true ∨ looksAbsolute p.segments = false) ∧
      ∀ other p', SourcePath.parse other = .ok p' → p.text = p'.text →
        (p = p' ↔ p.absolute = p'.absolute)) ∧
    ∀ q, TargetPath.parse text = .ok q →
      (TargetPath.parse q.text = .ok q ↔ looksAbsolute q.segments = false) ∧
      ∀ other q', TargetPath.parse other = .ok q' → q.text = q'.text → q = q' := by
  constructor
  · intro p hp
    exact ⟨source_parse_text_iff hp, fun other p' hp' htext => source_eq_iff hp hp' htext⟩
  · intro q hq
    exact ⟨target_parse_text_iff hq, fun other q' hq' htext => target_eq hq hq' htext⟩

/-- A path with a key in quotes, a key made of digits, an index and a wildcard, and two texts of
one target path. -/
theorem parse_text_quoted :
    let p : SourcePath := ⟨false, [.key "first name", .key "0", .index 12, .wildcard]⟩
    let q : TargetPath := ⟨[.key "total", .key "$"]⟩
    SourcePath.parse "[\"first name\"].0[012][*]" = .ok p ∧ SourcePath.parse p.text = .ok p ∧
      TargetPath.parse ".total[\"$\"]" = .ok q ∧ TargetPath.parse q.text = .ok q ∧
      ∀ q', TargetPath.parse "total.$" = .ok q' → q.text = q'.text → q = q' := by
  intro p q
  have hp : SourcePath.parse "[\"first name\"].0[012][*]" = .ok p := by cbv
  have hq : TargetPath.parse ".total[\"$\"]" = .ok q := by cbv
  have hsource := ((parse_text _).1 p hp).1.mpr (.inr (by decide))
  obtain ⟨htarget, hunique⟩ := (parse_text _).2 q hq
  exact ⟨hp, hsource, hq, htarget.mpr (by decide), hunique _⟩

/-- A key that starts with a dollar sign needs no quotes to start a relative path, and becomes the
start of an absolute one. -/
theorem parse_text_dollar :
    SourcePath.parse "[\"$\"].id" = .ok ⟨false, [.key "$", .key "id"]⟩ ∧
      (⟨false, [.key "$", .key "id"]⟩ : SourcePath).text = "$.id" ∧
      SourcePath.parse "$.id" = .ok ⟨true, [.key "id"]⟩ ∧
      (⟨true, [.key "id"]⟩ : SourcePath).text = "$.id" ∧
      TargetPath.parse "[\"$\"].id" = .ok ⟨[.key "$", .key "id"]⟩ ∧
      TargetPath.parse (⟨[.key "$", .key "id"]⟩ : TargetPath).text = .error ⟨.absoluteTarget, 0⟩ := by
  refine ⟨?_, ?_, ?_, ?_, ?_, ?_⟩ <;> cbv

end Path

end Remap
