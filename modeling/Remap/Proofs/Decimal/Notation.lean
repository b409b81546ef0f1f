import Remap.Proofs.Decimal.Parts
import Remap.Proofs.Decimal.Shortest

/-!
# Plain and scientific notation

The canonical text of a double denotes the digits of its shortest decimal exactly, in plain or in
scientific notation. As digits without zeros at the ends are determined by what they denote, so are
they by the text (`canonicalText_layout`).
-/

namespace Remap.Decimal

/-! ## What the digits denote -/

/-- `d₁.d₂d₃… · 10 ^ leading`. -/
def positional : List Nat → Int → ℚ
  | [], _ => 0
  | d :: digits, leading => d * 10 ^ leading + positional digits (leading - 1)

theorem positional_eq (digits : List Nat) (leading : Int) : positional digits leading =
    (Nat.ofDigits 10 digits.reverse : ℕ) * 10 ^ (leading + 1 - digits.length) := by
  induction digits generalizing leading with
  | nil => simp [positional]
  | cons d digits ih =>
    have hexp : leading - 1 + 1 - (digits.length : ℤ) = leading - digits.length := by ring
    have hexp' : leading + 1 - ((digits.length + 1 : ℕ) : ℤ) = leading - digits.length := by
      push_cast
      ring
    have hpower : (10 : ℚ) ^ leading = 10 ^ digits.length * 10 ^ (leading - digits.length) := by
      rw [← zpow_natCast, ← zpow_add₀ (by norm_num)]
      congr 1
      ring
    rw [positional, ih, List.reverse_cons, Nat.ofDigits_append, List.length_reverse,
      Nat.ofDigits_singleton, List.length_cons, hexp, hexp', hpower]
    push_cast
    ring

/-- A number in scientific notation: `± d₁.d₂d₃… · 10 ^ leading`. -/
structure Scientific where
  negative : Bool
  digits : List Nat
  leading : Int
deriving DecidableEq

namespace Scientific

def value (s : Scientific) : ℚ := signFactor s.negative * positional s.digits s.leading

/-- Whether the digits are digits, and neither the first nor the last of them is zero. -/
structure Normal (s : Scientific) : Prop where
  digit : ∀ d ∈ s.digits, d < 10
  first : ∃ d ∈ s.digits.head?, d ≠ 0
  last : ∃ d ∈ s.digits.getLast?, d ≠ 0

end Scientific

/-- A double with the digits of its shortest decimal. -/
def Binary64.scientific (b : Binary64) : Scientific :=
  ⟨b.negative, Digits.ofNat (b.shortest .up).coefficient, (b.shortest .up).leading⟩

section Scientific

variable {b c : Binary64}

theorem Binary64.scientific_normal (hb : b.significand ≠ 0) (hlt : b.significand < 2 ^ 53) :
    b.scientific.Normal := by
  have hlast := shortest_coefficient .up hb hlt
  have hne : (b.shortest .up).coefficient ≠ 0 := fun h => hlast (by rw [h])
  have hdigits : Nat.digits 10 (b.shortest .up).coefficient ≠ [] :=
    Nat.digits_ne_nil_iff_ne_zero.mpr hne
  refine ⟨fun d hd => ?_, ?_, ?_⟩
  · rw [scientific, Digits.ofNat_eq, List.mem_reverse] at hd
    exact Nat.digits_lt_base (by decide) hd
  · rw [scientific, Digits.ofNat_eq, List.head?_reverse]
    exact ⟨_, List.getLast?_eq_some_getLast hdigits, Nat.getLast_digit_ne_zero 10 hne⟩
  · rw [scientific, Digits.ofNat_eq, List.getLast?_reverse,
      Nat.digits_of_two_le_of_pos (by decide) (Nat.pos_of_ne_zero hne)]
    exact ⟨_, rfl, hlast⟩

/-- The exponent of the last digit. -/
theorem Binary64.leading_sub_length (b : Binary64) :
    b.scientific.leading + 1 - b.scientific.digits.length = (b.shortest .up).exponent := by
  rw [scientific, Digits.leading, Digits.count]
  ring

theorem Binary64.scientific_value (b : Binary64) :
    b.scientific.value = signFactor b.negative * (b.shortest .up).value := by
  have hdigits : Nat.ofDigits 10 b.scientific.digits.reverse = (b.shortest .up).coefficient := by
    rw [scientific, Digits.ofNat_eq, List.reverse_reverse, Nat.ofDigits_digits]
  rw [Scientific.value, positional_eq, hdigits, leading_sub_length, Digits.value]
  rfl

/-- Decimals without a zero at the end are determined by what they denote. -/
theorem Digits.eq_of_value_eq {d e : Digits} (hd : d.coefficient % 10 ≠ 0)
    (he : e.coefficient % 10 ≠ 0) (h : d.value = e.value) : d = e := by
  wlog hle : d.exponent ≤ e.exponent generalizing d e
  · exact (this he hd h.symm (Int.le_of_not_le hle)).symm
  obtain ⟨n, hn⟩ := Int.le.dest hle
  have hcoefficient : d.coefficient = e.coefficient * 10 ^ n := by
    have hpower : (10 : ℚ) ^ d.exponent ≠ 0 := by positivity
    rw [value, value, ← hn, zpow_add₀ (by norm_num), zpow_natCast, ← mul_assoc,
      mul_right_comm] at h
    exact_mod_cast mul_right_cancel₀ hpower h
  cases n with
  | zero =>
    obtain ⟨d, i⟩ := d
    obtain ⟨e, j⟩ := e
    simp only [pow_zero, mul_one, Nat.cast_zero, add_zero] at hcoefficient hn
    rw [hcoefficient, hn]
  | succ n =>
    refine absurd ?_ hd
    rw [hcoefficient, pow_succ, ← mul_assoc]
    exact Nat.mul_mod_left _ _

theorem Digits.value_pos {d : Digits} (hd : d.coefficient % 10 ≠ 0) : 0 < d.value := by
  have hne : d.coefficient ≠ 0 := fun h => hd (by rw [h])
  exact mul_pos (by exact_mod_cast Nat.pos_of_ne_zero hne) (by positivity)

/-- A sign and a magnitude are determined by the signed number. -/
theorem eq_of_signFactor_mul_eq {m n : Bool} {x y : ℚ} (hx : 0 < x) (hy : 0 < y)
    (h : signFactor m * x = signFactor n * y) : m = n ∧ x = y := by
  cases m <;> cases n <;> simp only [signFactor, Bool.false_eq_true, if_true, if_false] at h
  · exact ⟨rfl, by linarith⟩
  · linarith
  · linarith
  · exact ⟨rfl, by linarith⟩

/-- Digits without zeros at the ends are determined by what they denote. -/
theorem Binary64.scientific_eq_of_value_eq (hb : b.significand ≠ 0) (hlt : b.significand < 2 ^ 53)
    (hc : c.significand ≠ 0) (hlt' : c.significand < 2 ^ 53)
    (h : b.scientific.value = c.scientific.value) : b.scientific = c.scientific := by
  have hcoefficient := shortest_coefficient .up hb hlt
  have hcoefficient' := shortest_coefficient .up hc hlt'
  rw [scientific_value, scientific_value] at h
  obtain ⟨hsign, hvalue⟩ := eq_of_signFactor_mul_eq (Digits.value_pos hcoefficient)
    (Digits.value_pos hcoefficient') h
  rw [scientific, scientific, hsign, Digits.eq_of_value_eq hcoefficient hcoefficient' hvalue]

end Scientific

/-! ## The canonical text -/

/-- Whether a text is a number in plain notation: no exponent follows its digits. -/
def IsPlain (text : List Char) : Prop :=
  ∃ p : Parts, p.Valid ∧ p.exponent = none ∧ p.text = text

/-- Whether a text is a number in scientific notation: an exponent follows its digits, of which one
other than zero stands before the point. -/
def IsScientific (text : List Char) : Prop :=
  ∃ p : Parts, p.Valid ∧ p.exponent.isSome ∧ p.whole.length = 1 ∧ p.whole ≠ ['0'] ∧ p.text = text

theorem IsPlain.not_isScientific {text : List Char} (h : IsPlain text) : ¬ IsScientific text := by
  obtain ⟨p, hp, hnone, rfl⟩ := h
  rintro ⟨q, hq, hsome, -, -, htext⟩
  rw [← hq.mark_mem_text_iff, htext, hp.mark_mem_text_iff, hnone] at hsome
  cases hsome

section Canonical

variable {b c : Binary64} {x y : Float}

/-- The parts of the canonical text of a double other than zero. -/
def Binary64.canonicalParts (b : Binary64) : Parts :=
  Layout.canonical.parts b.negative (b.scientific.digits.map Layout.digitChar) b.scientific.leading

theorem map_digitChar_scientific (hb : b.significand ≠ 0) (hlt : b.significand < 2 ^ 53) :
    b.scientific.digits.map Layout.digitChar = Nat.toDigits 10 (b.shortest .up).coefficient := by
  have hlast := Binary64.shortest_coefficient .up hb hlt
  exact Layout.map_digitChar fun h => hlast (by rw [h])

theorem Binary64.canonicalParts_negative (b : Binary64) :
    b.canonicalParts.negative = b.negative := Layout.parts_negative ..

theorem toList_canonicalText (hx : Binary64.ofFloat? x = some b) (hb : b.significand ≠ 0) :
    (canonicalText x).toList = b.canonicalParts.text := by
  have hdigits := map_digitChar_scientific hb (Binary64.significand_lt hx)
  have hne : b.scientific.digits.map Layout.digitChar ≠ [] := hdigits ▸ Nat.toDigits_ne_nil
  have hplace := Layout.place_eq Layout.canonical b.negative b.scientific.leading hne
  simp only [canonicalText, hx, if_neg hb]
  rw [String.toList_ofList, Parts.text, Binary64.canonicalParts_negative,
    Binary64.canonicalParts, ← hplace]
  rfl

theorem map_digitChar_scientific_cons (hb : b.significand ≠ 0) (hlt : b.significand < 2 ^ 53) :
    ∃ c rest, b.scientific.digits.map Layout.digitChar = c :: rest ∧ c ≠ '0' := by
  obtain ⟨hdigit, ⟨d, hd, hne⟩, -⟩ := Binary64.scientific_normal hb hlt
  obtain ⟨rest, hrest⟩ := List.head?_eq_some_iff.mp hd
  have hfirst : ∀ d < 10, d ≠ 0 → Layout.digitChar d ≠ '0' := by decide
  rw [hrest]
  exact ⟨_, _, List.map_cons, hfirst d (hdigit d (hrest ▸ List.mem_cons_self)) hne⟩

theorem canonicalParts_valid (hb : b.significand ≠ 0) (hlt : b.significand < 2 ^ 53) :
    b.canonicalParts.Valid := by
  have hdigits := map_digitChar_scientific hb hlt
  exact Layout.parts_valid _ _ _ (fun c hc => isDigit_of_mem_toDigits (hdigits ▸ hc))
    (map_digitChar_scientific_cons hb hlt)

theorem canonicalParts_value (hb : b.significand ≠ 0) (hlt : b.significand < 2 ^ 53) :
    b.canonicalParts.literal.value = b.scientific.value := by
  have hdigits := map_digitChar_scientific hb hlt
  have hne : b.scientific.digits.map Layout.digitChar ≠ [] := hdigits ▸ Nat.toDigits_ne_nil
  have hvalue : ofDigits (b.scientific.digits.map Layout.digitChar) =
      (b.shortest .up).coefficient := by rw [hdigits, ofDigits_toDigits]
  rw [Binary64.canonicalParts, Layout.parts_value _ _ _ hne, hvalue, List.length_map,
    Binary64.leading_sub_length, Binary64.scientific_value, Digits.value, mul_assoc]

theorem canonicalParts_cases (hb : b.significand ≠ 0) (hlt : b.significand < 2 ^ 53) :
    (-6 ≤ b.scientific.leading ∧ b.scientific.leading ≤ 20) ∧ IsPlain b.canonicalParts.text ∨
      ¬ (-6 ≤ b.scientific.leading ∧ b.scientific.leading ≤ 20) ∧
        IsScientific b.canonicalParts.text := by
  have hvalid := canonicalParts_valid hb hlt
  have hfrom : Layout.canonical.plainFrom = -6 := rfl
  have hto : Layout.canonical.plainTo = 20 := rfl
  by_cases h : b.scientific.leading < -6 ∨ 20 < b.scientific.leading
  · obtain ⟨c, rest, hdigits, hc⟩ := map_digitChar_scientific_cons hb hlt
    have hparts : b.canonicalParts = ⟨b.negative, [c], rest, some b.scientific.leading⟩ := by
      rw [Binary64.canonicalParts, Layout.parts, hfrom, hto, if_pos h, hdigits]
      rfl
    refine .inr ⟨by omega, b.canonicalParts, hvalid, ?_, ?_, ?_, rfl⟩
    · rw [hparts]
      rfl
    · rw [hparts]
      rfl
    · rw [hparts]
      exact fun heq => hc (List.cons.inj heq).1
  · refine .inl ⟨by omega, b.canonicalParts, hvalid, ?_, rfl⟩
    rw [Binary64.canonicalParts, Layout.parts, hfrom, hto, if_neg h]
    split_ifs <;> rfl

/-- **The text of a number denotes its digits exactly.** For every finite double other than zero,
with the digits of its shortest decimal, the first and the last of which are not zero, the text
follows the number grammar and denotes what the digits denote. It is in plain notation if the
exponent of the first digit is from -6 to 20, and in scientific notation if it is not. Numbers with
the same text have the same sign, digits and exponent. -/
theorem canonicalText_layout (hx : Binary64.ofFloat? x = some b) (hb : b.significand ≠ 0) :
    b.scientific.Normal ∧
      (∃ l, Literal.read? (canonicalText x).toList = some l ∧ l.value = b.scientific.value) ∧
      (IsPlain (canonicalText x).toList ↔
        -6 ≤ b.scientific.leading ∧ b.scientific.leading ≤ 20) ∧
      (IsScientific (canonicalText x).toList ↔
        ¬ (-6 ≤ b.scientific.leading ∧ b.scientific.leading ≤ 20)) ∧
      ∀ (y : Float) (c : Binary64), Binary64.ofFloat? y = some c → c.significand ≠ 0 →
        canonicalText y = canonicalText x → c.scientific = b.scientific := by
  have hlt := Binary64.significand_lt hx
  have hnormal := Binary64.scientific_normal hb hlt
  have hvalid := canonicalParts_valid hb hlt
  have htext := toList_canonicalText hx hb
  refine ⟨hnormal, ⟨_, by rw [htext, hvalid.read?], canonicalParts_value hb hlt⟩, ?_, ?_, ?_⟩
  · rw [htext]
    rcases canonicalParts_cases hb hlt with ⟨hrange, hplain⟩ | ⟨hrange, hscientific⟩
    · exact iff_of_true hplain hrange
    · exact iff_of_false (fun hplain => hplain.not_isScientific hscientific) hrange
  · rw [htext]
    rcases canonicalParts_cases hb hlt with ⟨hrange, hplain⟩ | ⟨hrange, hscientific⟩
    · exact iff_of_false hplain.not_isScientific fun h => h hrange
    · exact iff_of_true hscientific hrange
  · intro y c hy hc heq
    have hlt' := Binary64.significand_lt hy
    have hread := (canonicalParts_valid hc hlt').read?
    rw [← toList_canonicalText hy hc, heq, htext, hvalid.read?] at hread
    refine Binary64.scientific_eq_of_value_eq hc hlt' hb hlt ?_
    rw [← canonicalParts_value hc hlt', ← canonicalParts_value hb hlt, Option.some.inj hread]

theorem canonicalText_layout_tiny :
    canonicalText (-1.5e-7) = "-1.5e-7" ∧
      (∃ l, Literal.read? "-1.5e-7".toList = some l ∧
        l.value = (⟨true, [1, 5], -7⟩ : Scientific).value) ∧
      IsScientific "-1.5e-7".toList := by
  have htext : canonicalText (-1.5e-7) = "-1.5e-7" := by decide +kernel
  have hdigits : (⟨true, 5666839779443574, -75⟩ : Binary64).scientific = ⟨true, [1, 5], -7⟩ := by
    decide +kernel
  have hlayout := canonicalText_layout (x := -1.5e-7) (b := ⟨true, 5666839779443574, -75⟩)
    (by decide +kernel) (by decide)
  rw [htext, hdigits] at hlayout
  obtain ⟨-, hread, -, hscientific, -⟩ := hlayout
  exact ⟨htext, hread, hscientific.mpr (by decide)⟩

end Canonical

end Remap.Decimal
