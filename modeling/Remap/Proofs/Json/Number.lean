import Mathlib.Data.List.TakeWhile
import Remap.Json.Reader
import Remap.Proofs.Decimal.Digits
import Remap.Proofs.Results

/-!
# Numbers among other text

A number is read in the same way whatever comes behind it, unless that goes on with the number. So
a number that is read back from its own text is read back wherever it is written.
-/

namespace Remap.Json

open Decimal (isDigit)

/-- Whether a number ends before a text. -/
def EndsNumber (rest : List Char) : Prop := ∀ c ∈ rest.head?, isDigit c = false ∧ c ∉ ['.', 'e', 'E']

section Behind

variable {negative : Bool} {significand : Nat} {exponent : Int} {text rest left : List Char}
  {n : Float}

theorem EndsNumber.startsWithDigit (hrest : EndsNumber rest) (text : List Char) :
    startsWithDigit (text ++ rest) = startsWithDigit text := by
  cases text with
  | cons c text => rfl
  | nil =>
    cases rest with
    | nil => rfl
    | cons c rest => exact (hrest c rfl).1

theorem EndsNumber.dropWhile (hrest : EndsNumber rest) (text : List Char) :
    (text ++ rest).dropWhile isDigit = text.dropWhile isDigit ++ rest := by
  induction text with
  | nil =>
    cases rest with
    | nil => rfl
    | cons c rest => rw [List.nil_append, List.dropWhile_cons_of_neg (by simp [(hrest c rfl).1])]; rfl
  | cons c text ih =>
    rw [List.cons_append, List.dropWhile_cons, List.dropWhile_cons, ih]
    split <;> rfl

theorem EndsNumber.takeWhile (hrest : EndsNumber rest) (text : List Char) :
    (text ++ rest).takeWhile isDigit = text.takeWhile isDigit := by
  induction text with
  | nil =>
    cases rest with
    | nil => rfl
    | cons c rest => rw [List.nil_append, List.takeWhile_cons_of_neg (by simp [(hrest c rfl).1])]; rfl
  | cons c text ih => rw [List.cons_append, List.takeWhile_cons, List.takeWhile_cons, ih]

theorem EndsNumber.takeDigits (hrest : EndsNumber rest) (significand : Nat) (text : List Char) :
    takeDigits significand (text ++ rest) =
      ((takeDigits significand text).1, (takeDigits significand text).2.1,
        (takeDigits significand text).2.2 ++ rest) := by
  induction text generalizing significand with
  | nil =>
    cases rest with
    | nil => rfl
    | cons c rest => simp [Json.takeDigits, (hrest c rfl).1]
  | cons c text ih =>
    rw [List.cons_append, Json.takeDigits, Json.takeDigits]
    split
    · dsimp only
      split
      · rfl
      · rw [ih]
    · rfl

theorem EndsNumber.readExponentDigits (hrest : EndsNumber rest) (exponent : Nat)
    (text : List Char) :
    readExponentDigits exponent (text ++ rest) =
      ((readExponentDigits exponent text).1,
        (readExponentDigits exponent text).2.1.map (· ++ rest),
        (readExponentDigits exponent text).2.2 ++ rest) := by
  induction text generalizing exponent with
  | nil =>
    cases rest with
    | nil => rfl
    | cons c rest => simp [Json.readExponentDigits, (hrest c rfl).1]
  | cons c text ih =>
    rw [List.cons_append, Json.readExponentDigits, Json.readExponentDigits]
    split
    · dsimp only
      split
      · rfl
      · rw [ih]
    · rfl

theorem takeDigits_suffix (significand : Nat) (text : List Char) :
    (takeDigits significand text).2.2 <:+ text := by
  induction text generalizing significand with
  | nil => exact List.suffix_refl _
  | cons c text ih =>
    rw [takeDigits]
    split
    · dsimp only
      split
      · exact List.suffix_refl _
      · exact (ih _).trans (List.suffix_cons c text)
    · exact List.suffix_refl _

theorem readExponentDigits_suffix (exponent : Nat) (text : List Char) :
    (readExponentDigits exponent text).2.2 <:+ text ∧
      ∀ beyond ∈ (readExponentDigits exponent text).2.1, beyond <:+ text := by
  induction text generalizing exponent with
  | nil => exact ⟨List.suffix_refl _, nofun⟩
  | cons c text ih =>
    rw [readExponentDigits]
    split
    · dsimp only
      split
      · exact ⟨List.suffix_cons c text, fun _ h => by cases h; exact List.suffix_cons c text⟩
      · obtain ⟨htail, hbeyond⟩ := ih (10 * exponent + Decimal.digitValue c)
        exact ⟨htail.trans (List.suffix_cons c text),
          fun b hb => (hbeyond b hb).trans (List.suffix_cons c text)⟩
    · exact ⟨List.suffix_refl _, nofun⟩

theorem readExponentSign_suffix (text : List Char) :
    (Decimal.Literal.readExponentSign text).2 <:+ text := by
  unfold Decimal.Literal.readExponentSign
  split
  · exact List.suffix_cons _ _
  · exact List.suffix_cons _ _
  · exact List.suffix_refl _

theorem readExponentSign_append (htext : text ≠ []) :
    Decimal.Literal.readExponentSign (text ++ rest) =
      ((Decimal.Literal.readExponentSign text).1,
        (Decimal.Literal.readExponentSign text).2 ++ rest) := by
  cases text with
  | nil => exact absurd rfl htext
  | cons c text =>
    by_cases hplus : c = '+'
    · rw [hplus]; rfl
    · by_cases hminus : c = '-'
      · rw [hminus]; rfl
      · simp [Decimal.Literal.readExponentSign, hplus, hminus]

theorem finish_eq_ok (rest : List Char)
    (h : finish negative significand exponent text = .ok (n, left)) :
    left = text ∧ finish negative significand exponent rest = .ok (n, rest) := by
  unfold finish at h ⊢
  split at h
  · next f hf =>
    cases h
    exact ⟨rfl, rfl⟩
  · cases h

theorem readExponent_append (hrest : EndsNumber rest)
    (h : readExponent negative significand exponent text = .ok (n, left)) :
    left <:+ text ∧
      readExponent negative significand exponent (text ++ rest) = .ok (n, left ++ rest) := by
  have htext : text ≠ [] := by
    rintro rfl
    cases h
  have hsign := readExponentSign_suffix text
  unfold readExponent at h ⊢
  rw [readExponentSign_append htext]
  generalize Decimal.Literal.readExponentSign text = sign at h hsign ⊢
  obtain ⟨down, digits⟩ := sign
  cases digits with
  | nil => cases h
  | cons c digits =>
    have hdigits : digits <:+ text := (List.suffix_cons c digits).trans hsign
    obtain ⟨htail, hbeyond⟩ := readExponentDigits_suffix (Decimal.digitValue c) digits
    dsimp only [List.cons_append] at h ⊢
    split at h
    case isFalse => cases h
    case isTrue hc =>
      rw [if_pos hc, hrest.readExponentDigits]
      generalize readExponentDigits (Decimal.digitValue c) digits = found at h htail hbeyond ⊢
      obtain ⟨exponent, beyond, tail⟩ := found
      cases beyond with
      | some beyond =>
        dsimp only [Option.map_some] at h ⊢
        split at h
        · cases h
        · next hzero =>
          cases h
          rw [if_neg hzero, hrest.dropWhile]
          exact ⟨(List.dropWhile_suffix _).trans ((hbeyond beyond rfl).trans hdigits), rfl⟩
      | none =>
        obtain ⟨rfl, hread⟩ := finish_eq_ok _ h
        exact ⟨htail.trans hdigits, hread⟩

theorem readTail_append (hrest : EndsNumber rest)
    (h : readTail negative significand exponent text = .ok (n, left)) :
    left <:+ text ∧
      readTail negative significand exponent (text ++ rest) = .ok (n, left ++ rest) := by
  cases text with
  | nil =>
    obtain ⟨rfl, hread⟩ := finish_eq_ok rest h
    refine ⟨List.suffix_refl _, ?_⟩
    cases rest with
    | nil => exact hread
    | cons c rest =>
      have hc : ¬ (c = 'e' ∨ c = 'E') := by
        rintro (rfl | rfl) <;> exact absurd (hrest _ rfl).2 (by decide)
      rw [List.nil_append, readTail, if_neg hc]
      exact hread
  | cons c text =>
    rw [readTail] at h
    rw [List.cons_append, readTail]
    split at h
    · next hc =>
      obtain ⟨hleft, hread⟩ := readExponent_append hrest h
      rw [if_pos hc]
      exact ⟨hleft.trans (List.suffix_cons c text), hread⟩
    · next hc =>
      obtain ⟨rfl, hread⟩ := finish_eq_ok _ h
      rw [if_neg hc]
      exact ⟨List.suffix_refl _, hread⟩

theorem readFraction_append (hrest : EndsNumber rest)
    (h : readFraction negative significand exponent text = .ok (n, left)) :
    left <:+ text ∧
      readFraction negative significand exponent (text ++ rest) = .ok (n, left ++ rest) := by
  have hdigits := takeDigits_suffix significand text
  unfold readFraction at h ⊢
  rw [hrest.takeDigits]
  generalize takeDigits significand text = found at h hdigits ⊢
  obtain ⟨significand, taken, tail⟩ := found
  dsimp only at h hdigits ⊢
  rw [hrest.startsWithDigit]
  split at h
  · next hmore =>
    obtain ⟨hleft, hread⟩ := readTail_append hrest h
    rw [if_pos hmore, hrest.dropWhile]
    exact ⟨hleft.trans ((List.dropWhile_suffix _).trans hdigits), hread⟩
  · next hmore =>
    rw [if_neg hmore]
    split at h
    · split at h <;> cases h
    · next htaken =>
      obtain ⟨hleft, hread⟩ := readTail_append hrest h
      rw [if_neg htaken]
      exact ⟨hleft.trans hdigits, hread⟩

/-- The rest of a number after its whole part. -/
def readAfterWhole (negative : Bool) (significand : Nat) (exponent : Int) :
    List Char → Except Fault (Float × List Char)
  | '.' :: rest => readFraction negative significand exponent rest
  | rest => readTail negative significand exponent rest

theorem readAfterWhole_of_ne {c : Char} (hc : c ≠ '.') (text : List Char) :
    readAfterWhole negative significand exponent (c :: text) =
      readTail negative significand exponent (c :: text) := by
  simp [readAfterWhole, hc]

theorem readAfterWhole_append (hrest : EndsNumber rest)
    (h : readAfterWhole negative significand exponent text = .ok (n, left)) :
    left <:+ text ∧
      readAfterWhole negative significand exponent (text ++ rest) = .ok (n, left ++ rest) := by
  cases text with
  | nil =>
    have htail : readTail negative significand exponent [] = .ok (n, left) := h
    obtain ⟨hleft, hread⟩ := readTail_append hrest htail
    refine ⟨hleft, ?_⟩
    cases rest with
    | nil => exact hread
    | cons c rest =>
      have hc : c ≠ '.' := by
        rintro rfl
        exact absurd (hrest _ rfl).2 (by decide)
      rw [List.nil_append, readAfterWhole_of_ne hc]
      exact hread
  | cons c text =>
    by_cases hc : c = '.'
    · subst hc
      obtain ⟨hleft, hread⟩ := readFraction_append hrest h
      exact ⟨hleft.trans (List.suffix_cons _ text), hread⟩
    · rw [readAfterWhole_of_ne hc] at h
      rw [List.cons_append, readAfterWhole_of_ne hc]
      exact readTail_append hrest h

theorem readNumber_cons (c : Char) (text : List Char) :
    readNumber negative (c :: text) =
      if c = '0' then
        if startsWithDigit text then failNext .invalidNumber text
        else readAfterWhole negative 0 0 text
      else if isDigit c then
        let (significand, _, tail) := takeDigits (Decimal.digitValue c) text
        let beyond := tail.takeWhile isDigit
        readAfterWhole negative significand beyond.length (tail.drop beyond.length)
      else failNext .invalidNumber (c :: text) := rfl

/-- A number is read in the same way with other text behind it. -/
theorem readNumber_append (hrest : EndsNumber rest)
    (h : readNumber negative text = .ok (n, left)) :
    left <:+ text ∧ readNumber negative (text ++ rest) = .ok (n, left ++ rest) := by
  cases text with
  | nil => cases h
  | cons c text =>
    rw [readNumber_cons] at h
    rw [List.cons_append, readNumber_cons]
    split at h
    · next hzero =>
      rw [if_pos hzero, hrest.startsWithDigit]
      split at h
      · cases h
      · next hmore =>
        obtain ⟨hleft, hread⟩ := readAfterWhole_append hrest h
        rw [if_neg hmore]
        exact ⟨hleft.trans (List.suffix_cons c text), hread⟩
    · next hzero =>
      rw [if_neg hzero]
      split at h
      · next hc =>
        have hdigits := takeDigits_suffix (Decimal.digitValue c) text
        rw [if_pos hc, hrest.takeDigits]
        generalize takeDigits (Decimal.digitValue c) text = found at h hdigits ⊢
        obtain ⟨significand, taken, tail⟩ := found
        dsimp only at h hdigits ⊢
        obtain ⟨hleft, hread⟩ := readAfterWhole_append hrest h
        have hlength : (tail.takeWhile isDigit).length ≤ tail.length :=
          (List.takeWhile_prefix isDigit).length_le
        rw [hrest.takeWhile, List.drop_append_of_le_length hlength]
        exact ⟨hleft.trans ((List.drop_suffix _ _).trans
          (hdigits.trans (List.suffix_cons c text))), hread⟩
      · cases h

end Behind

section Values

variable {fuel room : Nat} {text left : List Char} {n : Float}

theorem eq_of_readWord {α : Type} {v w : α} {word : List Char}
    (h : readWord v word text = .ok (w, left)) : w = v := by
  induction word generalizing text with
  | nil =>
    cases h
    rfl
  | cons c word ih =>
    cases text with
    | nil => cases h
    | cons d text =>
      rw [readWord] at h
      split at h
      · exact ih h
      · cases h

/-- A number starts with a minus sign or a digit. -/
theorem readNumber_of_readValue (h : readValue fuel room text = .ok (.number n, left)) :
    ∃ c rest, skipSpace text = c :: rest ∧
      ((c = '-' ∧ readNumber true rest = .ok (n, left)) ∨
        (isDigit c = true ∧ readNumber false (c :: rest) = .ok (n, left))) := by
  cases fuel with
  | zero => cases h
  | succ fuel =>
    rw [readValue] at h
    split at h
    · cases h
    · cases eq_of_readWord h
    · cases eq_of_readWord h
    · cases eq_of_readWord h
    · next rest hspace =>
      obtain ⟨⟨m, tail⟩, hread, heq⟩ := map_eq_ok_iff.mp h
      cases heq
      exact ⟨'-', rest, hspace, .inl ⟨rfl, hread⟩⟩
    · obtain ⟨⟨s, tail⟩, -, heq⟩ := map_eq_ok_iff.mp h
      cases heq
    · split at h
      · cases h
      · split at h
        · cases h
        · cases h
        · obtain ⟨⟨first, tail⟩, -, h⟩ := bind_eq_ok_iff.mp h
          obtain ⟨⟨items, tail⟩, -, h⟩ := bind_eq_ok_iff.mp h
          cases h
    · split at h
      · cases h
      · split at h
        · cases h
        · cases h
        · obtain ⟨⟨key, tail⟩, -, h⟩ := bind_eq_ok_iff.mp h
          obtain ⟨⟨value, tail⟩, -, h⟩ := bind_eq_ok_iff.mp h
          obtain ⟨⟨fields, tail⟩, -, h⟩ := bind_eq_ok_iff.mp h
          cases h
    · next c rest _ _ _ _ _ _ _ hspace =>
      split at h
      · next hc =>
        obtain ⟨⟨m, tail⟩, hread, heq⟩ := map_eq_ok_iff.mp h
        cases heq
        exact ⟨c, rest, hspace, .inr ⟨hc, hread⟩⟩
      · cases h

/-- A number is read where it stands. -/
theorem readValue_number {c : Char} (hspace : skipSpace (c :: text) = c :: text)
    (h : (c = '-' ∧ readNumber true text = .ok (n, left)) ∨
      (isDigit c = true ∧ readNumber false (c :: text) = .ok (n, left))) :
    readValue (fuel + 1) room (c :: text) = .ok (.number n, left) := by
  rcases h with ⟨rfl, h⟩ | ⟨hc, h⟩
  · rw [readValue, hspace]
    show (readNumber true text).map _ = _
    rw [h]
    rfl
  · rw [readValue, hspace]
    split
    case h_1 heq => cases heq
    case h_9 heq =>
      cases heq
      rw [if_pos hc, h]
      rfl
    all_goals next heq =>
      cases heq
      cases hc

end Values

/-- Whether a number is read back from its text, as a number that is equal to it. -/
def readsBack (n : Float) : Bool :=
  match read (Decimal.canonicalText n) with
  | .ok (.number m) => m == n
  | _ => false

theorem readsBack_iff {n : Float} :
    readsBack n = true ↔ ∃ m, read (Decimal.canonicalText n) = .ok (.number m) ∧ (m == n) = true := by
  unfold readsBack
  split
  · next m hread =>
    rw [hread]
    exact ⟨fun h => ⟨m, rfl, h⟩, fun ⟨_, heq, h⟩ => by cases heq; exact h⟩
  · next hread => exact iff_of_false Bool.false_ne_true fun ⟨m, heq, _⟩ => hread m heq

theorem read_eq_ok_iff {text : String} {v : Value} :
    read text = .ok v ↔ readText maxNesting text.toList = .ok v := by
  rw [read]
  split
  · next w hread => rw [hread, Except.ok.injEq, Except.ok.injEq]
  · next fault hread => rw [hread]; exact iff_of_false nofun nofun

/-- Only a finite number is read back. -/
theorem finite_of_readsBack {n : Float} (h : readsBack n = true) :
    ∃ b, Decimal.Binary64.ofFloat? n = some b := by
  obtain ⟨m, hread, -⟩ := readsBack_iff.mp h
  have hunread : ∀ text ∈ ["NaN", "-Infinity", "Infinity"], (read text).toOption.isNone = true := by
    decide +kernel
  cases hfinite : Decimal.Binary64.ofFloat? n with
  | some b => exact ⟨b, rfl⟩
  | none =>
    have htext : Decimal.canonicalText n ∈ ["NaN", "-Infinity", "Infinity"] := by
      simp only [Decimal.canonicalText, hfinite]
      split_ifs <;> simp
    have hnone := hunread _ htext
    rw [hread] at hnone
    cases hnone

theorem isSpace_iff {c : Char} :
    isSpace c = true ↔ c = ' ' ∨ c = '\n' ∨ c = '\t' ∨ c = '\r' := by
  rw [isSpace, decide_eq_true_iff]

theorem isSpace_of_isMark {c : Char} (h : Decimal.Layout.IsMark c) : isSpace c = false := by
  rw [← Bool.not_eq_true, isSpace_iff]
  rintro (rfl | rfl | rfl | rfl)
  all_goals
    rcases h with hdigit | hmark
    · cases hdigit
    · revert hmark
      decide

/-- A text without blanks loses none. -/
theorem skipSpace_eq_self {text : List Char} (h : ∀ c ∈ text, isSpace c = false) :
    skipSpace text = text := by
  cases text with
  | nil => rfl
  | cons c text => exact List.dropWhile_cons_of_neg (by simp [h c List.mem_cons_self])

/-- A number that is read back from its text is read back wherever it ends before other text. -/
theorem readValue_payloadText {n : Float} (h : readsBack n = true) :
    ∃ m c text, (m == n) = true ∧ (Decimal.payloadText n).toList = c :: text ∧
      (c = '-' ∨ isDigit c = true) ∧ ∀ fuel room rest, EndsNumber rest →
        readValue (fuel + 1) room (c :: (text ++ rest)) = .ok (.number m, rest) := by
  obtain ⟨b, hfinite⟩ := finite_of_readsBack h
  obtain ⟨m, hread, hm⟩ := readsBack_iff.mp h
  have htext : Decimal.payloadText n = Decimal.canonicalText n := by
    simp only [Decimal.payloadText, hfinite]
  have hplain : ∀ c ∈ (Decimal.payloadText n).toList, isSpace c = false := fun c hc =>
    isSpace_of_isMark (Decimal.marked_canonicalText hfinite c (htext ▸ hc))
  rw [← htext, read_eq_ok_iff, readText] at hread
  obtain ⟨⟨v, left⟩, hvalue, hend⟩ := bind_eq_ok_iff.mp hread
  dsimp only at hend
  split at hend
  case h_2 => cases hend
  case h_1 hspace =>
    cases hend
    obtain ⟨c, text, hchars, hnumber⟩ := readNumber_of_readValue hvalue
    rw [skipSpace_eq_self hplain] at hchars
    rw [hchars] at hplain
    have hc : isSpace c = false := hplain c List.mem_cons_self
    have hleft : left <:+ c :: text := by
      have hnothing : EndsNumber [] := nofun
      rcases hnumber with ⟨-, hnumber⟩ | ⟨-, hnumber⟩
      · exact (readNumber_append hnothing hnumber).1.trans (List.suffix_cons c text)
      · exact (readNumber_append hnothing hnumber).1
    have hnil : left = [] := by
      rw [← hspace, skipSpace_eq_self fun d hd => hplain d (hleft.subset hd)]
    subst hnil
    refine ⟨m, c, text, hm, hchars, hnumber.imp And.left And.left, fun fuel room rest hrest => ?_⟩
    refine readValue_number (List.dropWhile_cons_of_neg (by simp [hc])) ?_
    refine hnumber.imp (And.imp_right fun hnumber => ?_) (And.imp_right fun hnumber => ?_)
    · exact (readNumber_append hrest hnumber).2
    · exact (readNumber_append hrest hnumber).2

end Remap.Json
