import Mathlib
import Remap.Proofs.Decimal.Nearest
import Remap.Proofs.Decimal.Notation
import Remap.Proofs.Json.Number

/-!
# The digits of a number that are read

A number whose digits fit a significand is read with all of them, wherever its point stands. Of a
greater whole number some zeros at the end no longer fit, and they only move the point. So the
canonical text of a double is read with the digits of its shortest decimal.
-/

namespace Remap.Json

open Decimal (isDigit ofDigits Parts)

variable {negative : Bool} {significand : Nat} {start : Int} {digits text rest : List Char}

/-! ## Digits that fit -/

/-- The number that digits make of the one before them. -/
def extend (significand : Nat) (digits : List Char) : Nat :=
  digits.foldl (fun n c => 10 * n + Decimal.digitValue c) significand

theorem extend_eq (significand : Nat) (digits : List Char) :
    extend significand digits = 10 ^ digits.length * significand + ofDigits digits :=
  Nat.ofDigitChars_eq_ofDigitChars_zero

theorem le_extend (significand : Nat) (digits : List Char) :
    significand ≤ extend significand digits := by
  rw [extend_eq]
  exact le_add_right (Nat.le_mul_of_pos_left _ (Nat.pow_pos (by decide)))

theorem takeDigits_append (hdigits : ∀ c ∈ digits, isDigit c = true)
    (hfits : extend significand digits ≤ maxSignificand) (rest : List Char) :
    takeDigits significand (digits ++ rest) =
      ((takeDigits (extend significand digits) rest).1,
        digits.length + (takeDigits (extend significand digits) rest).2.1,
        (takeDigits (extend significand digits) rest).2.2) := by
  induction digits generalizing significand with
  | nil => simp [extend]
  | cons c digits ih =>
    obtain ⟨hc, hdigits⟩ := List.forall_mem_cons.mp hdigits
    have hnext : ¬ 10 * significand + Decimal.digitValue c > maxSignificand :=
      Nat.not_lt.mpr ((le_extend _ digits).trans hfits)
    have ih := ih hdigits hfits
    rw [List.cons_append, takeDigits, if_pos hc]
    simp only [if_neg hnext, ih, extend, List.foldl_cons, List.length_cons,
      Nat.add_right_comm digits.length 1]

theorem takeDigits_of_endsDigits (hrest : Parts.EndsDigits rest) (significand : Nat) :
    takeDigits significand rest = (significand, 0, rest) := by
  cases rest with
  | nil => rfl
  | cons c rest => rw [takeDigits, if_neg (by rw [hrest c rfl]; exact Bool.false_ne_true)]

theorem takeWhile_of_endsDigits (hrest : Parts.EndsDigits rest) :
    rest.takeWhile isDigit = [] := by
  cases rest with
  | nil => rfl
  | cons c rest => exact List.takeWhile_cons_of_neg (by rw [hrest c rfl]; exact Bool.false_ne_true)

theorem startsWithDigit_of_endsDigits (hrest : Parts.EndsDigits rest) :
    startsWithDigit rest = false := by
  cases rest with
  | nil => rfl
  | cons c rest => exact hrest c rfl

theorem readExponentDigits_append {exponent : Nat} (hdigits : ∀ c ∈ digits, isDigit c = true)
    (hfits : extend exponent digits ≤ maxExponent) :
    readExponentDigits exponent digits = (extend exponent digits, none, []) := by
  induction digits generalizing exponent with
  | nil => rfl
  | cons c digits ih =>
    obtain ⟨hc, hdigits⟩ := List.forall_mem_cons.mp hdigits
    have hnext : ¬ 10 * exponent + Decimal.digitValue c > maxExponent :=
      Nat.not_lt.mpr ((le_extend _ digits).trans hfits)
    rw [readExponentDigits, if_pos hc]
    simp only [if_neg hnext]
    exact ih hdigits hfits

/-! ## The parts of a number -/

theorem readExponent_digits {size : Nat} (hsize : size ≤ maxExponent) (down : Bool)
    (negative : Bool) (significand : Nat) (start : Int) : readExponent negative significand start
      ((if down then '-' else '+') :: Decimal.Layout.natText size) =
      finish negative significand (if down then start - size else start + size) [] := by
  have hdigits : ∀ c ∈ Decimal.Layout.natText size, isDigit c = true := fun c hc =>
    Decimal.isDigit_of_mem_toDigits (Decimal.Layout.natText_eq _ ▸ hc)
  have hvalue : ofDigits (Decimal.Layout.natText size) = size := by
    rw [Decimal.Layout.natText_eq, Decimal.ofDigits_toDigits]
  have hne : Decimal.Layout.natText size ≠ [] := by
    rw [Decimal.Layout.natText_eq]
    exact Nat.toDigits_ne_nil
  obtain ⟨c, digits, heq⟩ := List.exists_cons_of_ne_nil hne
  rw [heq] at hdigits hvalue ⊢
  obtain ⟨hc, hdigits⟩ := List.forall_mem_cons.mp hdigits
  have hextend : extend (Decimal.digitValue c) digits = size := by
    rw [← hvalue, extend, ofDigits, List.foldl_cons, Nat.mul_zero, Nat.zero_add]
  have hread := readExponentDigits_append hdigits (hextend.trans_le hsize)
  have hsign : Decimal.Literal.readExponentSign ((if down then '-' else '+') :: c :: digits) =
      (down, c :: digits) := by cases down <;> rfl
  rw [readExponent, hsign]
  simp only [hc, if_true, hread, hextend]

theorem readTail_exponentText {exponent : Option Int}
    (hexponent : ∀ e ∈ exponent, e.natAbs ≤ maxExponent) :
    readTail negative significand start (Parts.exponentText exponent) =
      finish negative significand (start + exponent.getD 0) [] := by
  cases exponent with
  | none => rw [Option.getD_none, add_zero]; rfl
  | some e =>
    have hread := readExponent_digits (hexponent e rfl) (decide (e < 0)) negative significand start
    simp only [decide_eq_true_eq] at hread
    have hexp : (if e < 0 then start - (e.natAbs : Int) else start + e.natAbs) = start + e := by
      split <;> omega
    rw [Parts.exponentText, readTail, if_pos (.inl rfl), hread, hexp, Option.getD_some]

theorem readTail_of_readAfterWhole (text : List Char) (htext : text.head? ≠ some '.') :
    readAfterWhole negative significand start text = readTail negative significand start text := by
  cases text with
  | nil => rfl
  | cons c text => exact readAfterWhole_of_ne (fun hc => htext (by rw [hc]; rfl)) text

/-- A fraction and an exponent are read behind any whole part, if the digits fit. -/
theorem readAfterWhole_text {fraction : List Char} {exponent : Option Int}
    (hfraction : ∀ c ∈ fraction, isDigit c = true)
    (hfits : extend significand fraction ≤ maxSignificand)
    (hexponent : ∀ e ∈ exponent, e.natAbs ≤ maxExponent) :
    readAfterWhole negative significand start
        (Parts.fractionText fraction ++ Parts.exponentText exponent) =
      finish negative (extend significand fraction)
        (start - fraction.length + exponent.getD 0) [] := by
  have hends := Parts.endsDigits_exponentText exponent
  rw [Parts.fractionText]
  split
  · next hnil =>
    rw [hnil, List.nil_append, List.length_nil, Nat.cast_zero, sub_zero,
      ← readTail_exponentText hexponent]
    exact readTail_of_readAfterWhole _ (by cases exponent <;> simp [Parts.exponentText])
  · next hne =>
    have htake := takeDigits_append hfraction hfits (Parts.exponentText exponent)
    rw [takeDigits_of_endsDigits hends, Nat.add_zero] at htake
    have hlength : fraction.length ≠ 0 := fun h => hne (List.length_eq_zero_iff.mp h)
    rw [List.cons_append, readAfterWhole, readFraction, htake]
    simp only [startsWithDigit_of_endsDigits hends, Bool.false_eq_true, if_false, hlength]
    exact readTail_exponentText hexponent

/-- A number whose digits fit is read with all of them. -/
theorem readNumber_of_fits {p : Parts} (hp : p.Valid)
    (hfits : p.literal.coefficient ≤ maxSignificand)
    (hexponent : ∀ e ∈ p.exponent, e.natAbs ≤ maxExponent) (negative : Bool) :
    readNumber negative p.unsigned =
      finish negative p.literal.coefficient p.literal.exponent [] := by
  have hends := Parts.endsDigits_fractionText p.fraction p.exponent
  obtain ⟨c, digits, hwhole, hc⟩ := hp.whole_eq
  have hdigits : ∀ d ∈ digits, isDigit d = true := fun d hd =>
    hp.whole_digit d (hwhole ▸ List.mem_cons_of_mem c hd)
  have hcoefficient : p.literal.coefficient =
      extend (extend (Decimal.digitValue c) digits) p.fraction := by
    rw [Parts.literal, hwhole, ofDigits, List.foldl_append, List.foldl_cons, Nat.mul_zero,
      Nat.zero_add, extend, extend]
  have hexp : p.literal.exponent = 0 - p.fraction.length + p.exponent.getD 0 := by
    rw [Parts.literal]
    ring
  rw [hcoefficient] at hfits ⊢
  rw [hexp, ← readAfterWhole_text hp.fraction_digit hfits hexponent, Parts.unsigned, hwhole,
    List.cons_append, readNumber_cons]
  split
  · next hzero =>
    have hnil : digits = [] := by
      rcases hp.whole_cases with heq | ⟨d, rest, heq, hne⟩
      · exact (List.cons.inj (hwhole.symm.trans heq)).2
      · exact absurd ((List.cons.inj (heq.symm.trans hwhole)).1.trans hzero) hne
    rw [hnil, hzero, List.nil_append, startsWithDigit_of_endsDigits hends,
      if_neg Bool.false_ne_true]
    rfl
  · have htake := takeDigits_append hdigits ((le_extend _ _).trans hfits)
      (Parts.fractionText p.fraction ++ Parts.exponentText p.exponent)
    rw [takeDigits_of_endsDigits hends] at htake
    simp only [htake, takeWhile_of_endsDigits hends, List.length_nil, List.drop_zero,
      Nat.cast_zero]

/-! ## Zeros that do not fit -/

/-- The significand that is read of a number with zeros behind it, and how many of these no longer
fit. -/
def appendZeros (significand : Nat) : Nat → Nat × Nat
  | 0 => (significand, 0)
  | zeros + 1 =>
    if 10 * significand > maxSignificand then (significand, zeros + 1)
    else appendZeros (10 * significand) zeros

theorem takeDigits_zeros (significand zeros : Nat) :
    takeDigits significand (List.replicate zeros '0') =
      ((appendZeros significand zeros).1, zeros - (appendZeros significand zeros).2,
        List.replicate (appendZeros significand zeros).2 '0') ∧
      (appendZeros significand zeros).2 ≤ zeros := by
  induction zeros generalizing significand with
  | zero => exact ⟨rfl, le_rfl⟩
  | succ zeros ih =>
    have hzero : Decimal.digitValue '0' = 0 := rfl
    have hdigit : isDigit '0' = true := rfl
    rw [List.replicate_succ, takeDigits, if_pos hdigit, hzero, Nat.add_zero, appendZeros]
    dsimp only
    split
    · exact ⟨by rw [Nat.sub_self, List.replicate_succ], le_rfl⟩
    · obtain ⟨htake, hle⟩ := ih (10 * significand)
      rw [htake]
      exact ⟨by dsimp only; rw [Nat.succ_sub hle], Nat.le_succ_of_le hle⟩

/-- What the significand lacks is made up for by the exponent. -/
theorem appendZeros_value (significand zeros : Nat) :
    ((appendZeros significand zeros).1 : ℚ) * 10 ^ (appendZeros significand zeros).2 =
      significand * 10 ^ zeros := by
  induction zeros generalizing significand with
  | zero => rfl
  | succ zeros ih =>
    rw [appendZeros]
    split
    · rfl
    · rw [ih]
      push_cast
      ring

theorem appendZeros_le {significand : Nat} (h : significand ≤ maxSignificand) (zeros : Nat) :
    (appendZeros significand zeros).1 ≤ maxSignificand := by
  induction zeros generalizing significand with
  | zero => exact h
  | succ zeros ih =>
    rw [appendZeros]
    split
    · exact h
    · next hfits => exact ih (Nat.not_lt.mp hfits)

/-- Nothing is left of zeros that fit. -/
theorem appendZeros_of_le {significand zeros : Nat}
    (h : significand * 10 ^ zeros ≤ maxSignificand) : (appendZeros significand zeros).2 = 0 := by
  induction zeros generalizing significand with
  | zero => rfl
  | succ zeros ih =>
    have hnext : significand * 10 ^ (zeros + 1) = 10 * significand * 10 ^ zeros := by ring
    rw [hnext] at h
    have hfits : 10 * significand ≤ maxSignificand :=
      (Nat.le_mul_of_pos_right _ (Nat.pow_pos (by decide))).trans h
    rw [appendZeros, if_neg (Nat.not_lt.mpr hfits)]
    exact ih h

/-- Zeros at the end of a whole number that no longer fit move the point. -/
theorem readNumber_zeros {c : Char} (hc : isDigit c = true) (hne : c ≠ '0')
    (hdigits : ∀ d ∈ digits, isDigit d = true)
    (hfits : ofDigits (c :: digits) ≤ maxSignificand) (zeros : Nat) (negative : Bool) :
    readNumber negative (c :: (digits ++ List.replicate zeros '0')) =
      finish negative (appendZeros (ofDigits (c :: digits)) zeros).1
        (appendZeros (ofDigits (c :: digits)) zeros).2 [] := by
  have hvalue : ofDigits (c :: digits) = extend (Decimal.digitValue c) digits := by
    rw [ofDigits, List.foldl_cons, Nat.mul_zero, Nat.zero_add, extend]
  rw [hvalue] at hfits ⊢
  have htake := takeDigits_append hdigits hfits (List.replicate zeros '0')
  rw [(takeDigits_zeros _ zeros).1] at htake
  have hdigit : isDigit '0' = true := rfl
  have hzeros (n : Nat) : (List.replicate n '0').takeWhile isDigit = List.replicate n '0' :=
    by simp [hdigit]
  rw [readNumber_cons, if_neg hne, if_pos hc]
  simp only [htake, hzeros, List.length_replicate, List.drop_replicate, Nat.sub_self,
    List.replicate_zero]
  rfl

/-! ## The canonical text -/

section Layout

variable {leading : Int}

/-- Digits that reach behind the point, or that an exponent is written to, are read as they are. -/
theorem readNumber_parts (hdigits : ∀ c ∈ digits, isDigit c = true)
    (hfirst : ∃ c rest, digits = c :: rest ∧ c ≠ '0') (hfits : ofDigits digits ≤ maxSignificand)
    (hleading : leading.natAbs ≤ maxExponent)
    (h : (leading < -6 ∨ 20 < leading) ∨ leading + 1 < digits.length) (sign negative : Bool) :
    readNumber negative (Decimal.Layout.canonical.parts sign digits leading).unsigned =
      finish negative (ofDigits digits) (leading + 1 - digits.length) [] := by
  have hvalid := Decimal.Layout.parts_valid Decimal.Layout.canonical sign leading hdigits hfirst
  obtain ⟨c, rest, hcons, -⟩ := hfirst
  have hliteral := Decimal.Layout.parts_literal Decimal.Layout.canonical sign leading
    (hcons ▸ List.cons_ne_nil c rest) h
  have hread := readNumber_of_fits hvalid (by rwa [hliteral])
    (fun e he => Decimal.Layout.parts_exponent _ _ _ e he ▸ hleading) negative
  rwa [hliteral] at hread

/-- A whole number is read with the zeros that fit. -/
theorem readNumber_parts_whole (hdigits : ∀ c ∈ digits, isDigit c = true)
    (hfirst : ∃ c rest, digits = c :: rest ∧ c ≠ '0') (hfits : ofDigits digits ≤ maxSignificand)
    (hrange : ¬ (leading < -6 ∨ 20 < leading)) (hlong : digits.length ≤ leading + 1)
    (sign negative : Bool) :
    readNumber negative (Decimal.Layout.canonical.parts sign digits leading).unsigned =
      finish negative (appendZeros (ofDigits digits) (leading + 1 - digits.length).toNat).1
        (appendZeros (ofDigits digits) (leading + 1 - digits.length).toNat).2 [] := by
  obtain ⟨c, rest, rfl, hc⟩ := hfirst
  obtain ⟨hdigit, hrest⟩ := List.forall_mem_cons.mp hdigits
  have hparts : Decimal.Layout.canonical.parts sign (c :: rest) leading = ⟨sign, c :: rest ++
      List.replicate (leading + 1 - (c :: rest).length).toNat '0', [], none⟩ :=
    (if_neg hrange).trans (if_pos hlong)
  rw [← readNumber_zeros hdigit hc hrest hfits, hparts, Parts.unsigned]
  exact congrArg (readNumber negative) (List.append_nil _)

end Layout

section Canonical

variable {b : Decimal.Binary64} {n : Float}

/-- The significand and the exponent that are read of a decimal in canonical layout. Zeros at the
end of a whole number are read with its digits while they fit. -/
def reading (d : Decimal.Digits) : Nat × Int :=
  if 0 ≤ d.exponent ∧ d.leading ≤ 20 then
    ((appendZeros d.coefficient d.exponent.toNat).1,
      (appendZeros d.coefficient d.exponent.toNat).2)
  else (d.coefficient, d.exponent)

/-- What is read stands for the decimal, whatever zeros are read. -/
theorem reading_value (d : Decimal.Digits) :
    ((reading d).1 : ℚ) * 10 ^ (reading d).2 = d.value := by
  rw [reading, Decimal.Digits.value]
  split
  · next h =>
    rw [zpow_natCast, appendZeros_value, ← zpow_natCast, Int.toNat_of_nonneg h.1]
  · rfl

theorem reading_le {d : Decimal.Digits} (hd : d.coefficient ≤ maxSignificand) :
    (reading d).1 ≤ maxSignificand := by
  rw [reading]
  split
  · exact appendZeros_le hd _
  · exact hd

theorem readNumber_canonicalParts (hb : b.Canonical)
    (hexp : b.exponent ≤ Decimal.Binary64.maxExponent) (hzero : b.significand ≠ 0)
    (negative : Bool) : readNumber negative b.canonicalParts.unsigned =
      finish negative (reading (b.shortest .up)).1 (reading (b.shortest .up)).2 [] := by
  have hlt := hb.significand_lt
  have hdigits := Decimal.map_digitChar_scientific hzero hlt
  have hfirst := Decimal.map_digitChar_scientific_cons hzero hlt
  have hlength := b.leading_sub_length
  rw [← List.length_map Decimal.Layout.digitChar] at hlength
  have hcoefficient : ofDigits (b.scientific.digits.map Decimal.Layout.digitChar) =
      (b.shortest .up).coefficient := by rw [hdigits, Decimal.ofDigits_toDigits]
  have hisDigit : ∀ d ∈ b.scientific.digits.map Decimal.Layout.digitChar, isDigit d = true :=
    fun d hd => Decimal.isDigit_of_mem_toDigits (hdigits ▸ hd)
  have hfits : (b.shortest .up).coefficient ≤ maxSignificand :=
    (Decimal.Binary64.shortest_coefficient_le .up hzero hlt).trans (by decide)
  have hleading : b.scientific.leading.natAbs ≤ maxExponent :=
    (Decimal.Binary64.natAbs_shortest_leading_le .up hzero hb hexp).trans (by decide)
  have hscientific : b.scientific.leading = (b.shortest .up).leading := rfl
  have hfitsText := hcoefficient.trans_le hfits
  rw [Decimal.Binary64.canonicalParts]
  by_cases h : (b.scientific.leading < -6 ∨ 20 < b.scientific.leading) ∨ b.scientific.leading + 1 <
      (b.scientific.digits.map Decimal.Layout.digitChar).length
  · have hreading : reading (b.shortest .up) =
        ((b.shortest .up).coefficient, (b.shortest .up).exponent) := if_neg (by omega)
    rw [readNumber_parts hisDigit hfirst hfitsText hleading h, hcoefficient, hlength, hreading]
  · obtain ⟨hrange, hlong⟩ := not_or.mp h
    have hreading : reading (b.shortest .up) =
        ((appendZeros (b.shortest .up).coefficient (b.shortest .up).exponent.toNat).1,
          ((appendZeros (b.shortest .up).coefficient (b.shortest .up).exponent.toNat).2 : Int)) :=
      if_pos (by omega)
    rw [readNumber_parts_whole hisDigit hfirst hfitsText hrange (not_lt.mp hlong), hcoefficient,
      hlength, hreading]

/-- What the reader makes of a decimal in canonical layout, without its sign. -/
def scaled? (d : Decimal.Digits) : Option Float :=
  scale? 5 (UInt64.ofNat (reading d).1).toFloat (reading d).2

/-- The canonical text of a double is read as its shortest decimal, in the reader's arithmetic. -/
theorem read_canonicalText {f : Float} (hn : Decimal.Binary64.ofFloat? n = some b)
    (hb : b.Canonical) (hexp : b.exponent ≤ Decimal.Binary64.maxExponent)
    (hzero : b.significand ≠ 0) (hf : scaled? (b.shortest .up) = some f) :
    read (Decimal.canonicalText n) = .ok (.number (if b.negative then -f else f)) := by
  have hvalid := Decimal.canonicalParts_valid hzero hb.significand_lt
  have hnumber : readNumber b.negative b.canonicalParts.unsigned =
      .ok (if b.negative then -f else f, []) := by
    rw [scaled?] at hf
    rw [readNumber_canonicalParts hb hexp hzero, finish, hf]
  obtain ⟨c, rest, hwhole, hc⟩ := hvalid.whole_eq
  have hunsigned : ∃ rest, b.canonicalParts.unsigned = c :: rest :=
    ⟨_, by rw [Parts.unsigned, hwhole, List.cons_append]⟩
  obtain ⟨rest, hunsigned⟩ := hunsigned
  rw [hunsigned] at hnumber
  have hspace {d : Char} (text : List Char) (hd : Decimal.Layout.IsMark d) :
      skipSpace (d :: text) = d :: text :=
    List.dropWhile_cons_of_neg (by rw [isSpace_of_isMark hd]; exact Bool.false_ne_true)
  rw [read_eq_ok_iff, Decimal.toList_canonicalText hn hzero, readText, Parts.text, hunsigned,
    b.canonicalParts_negative]
  cases hnegative : b.negative with
  | true =>
    rw [hnegative] at hnumber
    rw [if_pos rfl, readValue_number (hspace _ (.inr (by decide))) (.inl ⟨rfl, hnumber⟩)]
    rfl
  | false =>
    rw [hnegative] at hnumber
    rw [if_neg Bool.false_ne_true, readValue_number (hspace _ (.inl hc)) (.inr ⟨hc, hnumber⟩)]
    rfl

end Canonical

end Remap.Json
