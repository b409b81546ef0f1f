import Mathlib.Data.List.Chain
import Remap.Path.Repair
import Remap.Proofs.Decimal.Digits
import Remap.Proofs.Path.Grammar

/-!
# Repaired paths

The text of a path that was read has no slips (`tidy_render`), and so nothing is dropped from it.
The main statement is that a repaired text is not repaired again (`repair?_of_repair?`), though it
need not be the text of a path: the mark of an absolute path may stand at the start of a key.
-/

namespace Remap

namespace Path

/-! ## Texts without slips -/

/-- Whether one character may stand behind another: no dot before a dot or a bracket. -/
def Follow (a b : Char) : Prop := a = '.' → b ≠ '.' ∧ b ≠ '['

/-- A text without slips. -/
structure Tidy (text : List Char) : Prop where
  blank : ∀ c ∈ text, Text.isBlank c = false
  follow : text.IsChain Follow
  last : text.getLast? ≠ some '.'

theorem Tidy.nil : Tidy [] := ⟨fun _ h => absurd h List.not_mem_nil, .nil, fun h => nomatch h⟩

theorem Tidy.append {a b : List Char} (ha : Tidy a) (hb : Tidy b) : Tidy (a ++ b) := by
  refine ⟨fun c hc => ?_, List.isChain_append.mpr ⟨ha.follow, hb.follow, ?_⟩, ?_⟩
  · rcases List.mem_append.mp hc with hc | hc
    · exact ha.blank c hc
    · exact hb.blank c hc
  · rintro x hx y - rfl
    exact absurd (Option.mem_def.mp hx) ha.last
  · rw [List.getLast?_append]
    cases h : b.getLast? with
    | none => exact ha.last
    | some c =>
      intro heq
      cases heq
      exact hb.last h

/-- A text that holds no dot and no white space has no slips. -/
theorem tidy_of_forall {text : List Char} (h : ∀ c ∈ text, Text.isBlank c = false ∧ c ≠ '.') :
    Tidy text := by
  refine ⟨fun c hc => (h c hc).1, ?_, fun hlast => ?_⟩
  · refine List.Pairwise.isChain ?_
    refine List.pairwise_of_forall_mem_list fun a ha b _ hdot => ?_
    exact absurd hdot (h a ha).2
  · exact (h _ (List.mem_of_getLast? hlast)).2 rfl

/-- From a text without slips nothing is dropped. -/
theorem dropSlips_of_follow {kept text : List Char} (hblank : ∀ c ∈ text, Text.isBlank c = false)
    (hfollow : text.IsChain Follow) (hkept : ∀ a ∈ kept.head?, ∀ b ∈ text.head?, Follow a b) :
    dropSlips kept text = text.reverse ++ kept := by
  induction text generalizing kept with
  | nil => rw [dropSlips]; rfl
  | cons c rest ih =>
    obtain ⟨hc, hrest⟩ := List.forall_mem_cons.mp hblank
    have hpush : dropSlips (c :: kept) rest = (c :: rest).reverse ++ kept := by
      rw [ih hrest hfollow.tail (fun a ha b hb => ?_), List.reverse_cons, List.append_assoc]
      · rfl
      · cases ha
        cases rest with
        | nil => cases hb
        | cons b rest => cases hb; exact hfollow.rel
    simp only [dropSlips, hc, Bool.false_eq_true, if_false]
    split
    · next before =>
      obtain ⟨hdot, hbracket⟩ := hkept '.' rfl c rfl rfl
      rw [if_neg hdot, if_neg hbracket, hpush]
    · exact hpush

theorem clean_of_tidy {text : List Char} (h : Tidy text) :
    clean (String.ofList text) = String.ofList text := by
  have hslips : dropSlips [] text = text.reverse := by
    have hkept : ∀ a ∈ ([] : List Char).head?, ∀ b ∈ text.head?, Follow a b :=
      fun a ha => absurd ha (Option.not_mem_none a)
    rw [dropSlips_of_follow h.blank h.follow hkept, List.append_nil]
  have hdots : dropTrailingDots text.reverse = text.reverse := by
    unfold dropTrailingDots
    split
    · next c rest heq =>
      have hlast := h.last
      rw [← List.head?_reverse, heq] at hlast
      exact absurd rfl hlast
    · rfl
  rw [clean, String.toList_ofList, hslips, hdots, List.reverse_reverse]

/-! ## Repaired texts -/

/-- A digit is no slip. -/
theorem not_slip_of_isDigit {c : Char} (hc : Decimal.isDigit c = true) :
    Text.isBlank c = false ∧ c ≠ '.' := by
  have hdigit := Decimal.isDigit_iff.mp hc
  constructor
  · simp only [Text.isBlank, Bool.or_eq_false_iff, Bool.and_eq_false_iff, decide_eq_false_iff_not,
      beq_eq_false_iff_ne]
    omega
  · rintro rfl
    revert hdigit
    decide

theorem tidy_natText (n : Nat) : Tidy (Decimal.Layout.natText n) := by
  rw [Decimal.Layout.natText_eq]
  exact tidy_of_forall fun c hc => not_slip_of_isDigit (Decimal.isDigit_of_mem_toDigits hc)

/-- A segment is written without slips, unless quotes are needed. -/
theorem tidy_segmentText {s : Segment} (hs : s ≠ .key "") (atStart : Bool)
    (hquote : '"' ∉ segmentText atStart s) : Tidy (segmentText atStart s) := by
  cases s with
  | wildcard =>
    have hwildcard : Tidy ['[', '*', ']'] := tidy_of_forall (by simp [Text.isBlank])
    exact hwildcard
  | index n =>
    have hopen : Tidy ['['] := tidy_of_forall (by simp [Text.isBlank])
    have hclose : Tidy [']'] := tidy_of_forall (by simp [Text.isBlank])
    exact hopen.append ((tidy_natText n).append hclose)
  | key name =>
    rw [segmentText] at hquote ⊢
    split at hquote
    case isFalse => exact absurd (List.mem_cons_of_mem _ List.mem_cons_self) hquote
    next hplain =>
      rw [if_pos hplain]
      have hkey : ∀ c ∈ name.toList, isKeyChar c := List.all_eq_true.mp hplain
      have hname : Tidy name.toList := by
        refine tidy_of_forall fun c hc => ?_
        have h := hkey c hc
        simp only [isKeyChar, Bool.and_eq_true, bne_iff_ne, Bool.not_eq_true'] at h
        exact ⟨h.2, h.1.1.1.1⟩
      cases atStart with
      | true => exact hname
      | false =>
        cases hchars : name.toList with
        | nil => exact absurd (by rw [String.toList_eq_nil_iff.mp hchars]) hs
        | cons c rest =>
          rw [hchars] at hname hkey
          have h := hkey c List.mem_cons_self
          simp only [isKeyChar, Bool.and_eq_true, bne_iff_ne] at h
          refine ⟨?_, ?_, ?_⟩
          · exact List.forall_mem_cons.mpr ⟨by simp [Text.isBlank], hname.blank⟩
          · exact List.isChain_cons_cons.mpr ⟨fun _ => ⟨h.1.1.1.1, h.1.1.1.2⟩, hname.follow⟩
          · exact hname.last

/-- A path of which no key is empty is written without slips, unless quotes are needed. -/
theorem tidy_render {absolute : Bool} {segments : List Segment} (hnames : .key "" ∉ segments)
    (hquote : '"' ∉ render absolute segments) (hdot : render absolute segments ≠ ['.']) :
    Tidy (render absolute segments) := by
  have all {segments : List Segment} (hnames : .key "" ∉ segments)
      (hquote : '"' ∉ segments.flatMap (segmentText false)) :
      Tidy (segments.flatMap (segmentText false)) := by
    induction segments with
    | nil => exact .nil
    | cons s rest ih =>
      rw [List.mem_cons, not_or] at hnames
      rw [List.flatMap_cons, List.mem_append, not_or] at hquote
      exact (tidy_segmentText (Ne.symm hnames.1) false hquote.1).append (ih hnames.2 hquote.2)
  cases absolute with
  | true =>
    have hmark : Tidy ['$'] := tidy_of_forall (by simp [Text.isBlank])
    exact hmark.append (all hnames fun h => hquote (List.mem_cons_of_mem _ h))
  | false =>
    cases segments with
    | nil => exact absurd rfl hdot
    | cons s rest =>
      rw [List.mem_cons, not_or] at hnames
      rw [render, if_neg Bool.false_ne_true] at hquote ⊢
      rw [List.mem_append, not_or] at hquote
      exact (tidy_segmentText (Ne.symm hnames.1) true hquote.1).append (all hnames.2 hquote.2)

/-- The text of a path that was read has no slips, unless it is a dot or holds a quote. -/
theorem tidy_text {text : String} {p : SourcePath} (h : SourcePath.parse text = .ok p)
    (hquote : '"' ∉ p.text.toList) : p.text = "." ∨ Tidy p.text.toList := by
  rw [SourcePath.text, String.toList_ofList] at hquote ⊢
  by_cases hdot : render p.absolute p.segments = ['.']
  · exact .inl (congrArg String.ofList hdot)
  · have hnames : .key "" ∉ p.segments := fun hkey => (SourcePath.spelled_of_parse h _ hkey).1 rfl
    exact .inr (tidy_render hnames hquote hdot)

/-- Nothing is dropped from the text of a path that was read, unless it holds a quote. -/
theorem clean_text {text : String} {p : SourcePath} (h : SourcePath.parse text = .ok p)
    (hquote : '"' ∉ p.text.toList) : clean p.text = p.text := by
  rcases tidy_text h hquote with hdot | htidy
  · rw [hdot]
    decide
  · have hclean := clean_of_tidy htidy
    rwa [String.ofList_toList] at hclean

/-- A repaired text is the canonical text of what is left of a text without quotes. -/
theorem repair?_eq_some_iff {text meant : String} : repair? text = some meant ↔
    (∃ e, SourcePath.parse text = .error e) ∧ '"' ∉ text.toList ∧
      ∃ p, SourcePath.parse (clean text) = .ok p ∧ p.text = meant := by
  constructor
  · intro h
    unfold repair? at h
    split at h
    · cases h
    next e he =>
      split at h
      · cases h
      next hquote =>
        rw [List.contains_iff_mem] at hquote
        split at h
        · next p hp =>
          cases h
          exact ⟨⟨e, he⟩, hquote, p, hp, rfl⟩
        · cases h
  · rintro ⟨⟨e, he⟩, hquote, p, hp, rfl⟩
    simp only [repair?, he, hp, List.contains_iff_mem, hquote, if_false]

/-- A repaired text needs no other repair. -/
theorem repair?_of_repair? {text meant : String} (h : repair? text = some meant) :
    repair? meant = none := by
  obtain ⟨-, -, p, hp, rfl⟩ := repair?_eq_some_iff.mp h
  cases hparse : SourcePath.parse p.text with
  | ok q => simp only [repair?, hparse]
  | error error =>
    by_cases hquote : '"' ∈ p.text.toList
    · simp only [repair?, hparse, List.contains_iff_mem.mpr hquote, if_true]
    · simp only [repair?, hparse, clean_text hp hquote, ite_self]

end Path

end Remap
