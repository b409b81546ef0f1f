import Mathlib
import Remap.Proofs.Decimal.Digits
import Remap.Proofs.Lists

/-!
# The parts of the text of a number

The text of a number is made of a sign, whole digits, a fraction and an exponent. Such a text is a
literal, and every layout makes one that denotes its digits exactly, wherever the point stands.
-/

namespace Remap.Decimal

/-! ## The parts of a text -/

/-- What the text of a number is made of. -/
structure Parts where
  negative : Bool
  whole : List Char
  fraction : List Char
  exponent : Option Int

namespace Parts

/-- A fraction behind its point. -/
def fractionText (fraction : List Char) : List Char :=
  if fraction = [] then [] else '.' :: fraction

/-- An exponent behind its mark, with its sign. -/
def exponentText : Option Int → List Char
  | none => []
  | some e => 'e' :: (if e < 0 then '-' else '+') :: Layout.natText e.natAbs

def unsigned (p : Parts) : List Char :=
  p.whole ++ (fractionText p.fraction ++ exponentText p.exponent)

def text (p : Parts) : List Char := if p.negative then '-' :: p.unsigned else p.unsigned

/-- Whether the parts are digits, and the whole part is zero or does not start with a zero. -/
structure Valid (p : Parts) : Prop where
  whole_digit : ∀ c ∈ p.whole, isDigit c = true
  fraction_digit : ∀ c ∈ p.fraction, isDigit c = true
  whole_cases : p.whole = ['0'] ∨ ∃ c rest, p.whole = c :: rest ∧ c ≠ '0'

/-- The literal that the parts are read as. -/
def literal (p : Parts) : Literal :=
  ⟨p.negative, ofDigits (p.whole ++ p.fraction), (p.whole ++ p.fraction).length,
    p.exponent.getD 0 - p.fraction.length⟩

section Reading

variable {digits rest : List Char} {p : Parts}

/-- Text that does not go on with a digit. -/
def EndsDigits (rest : List Char) : Prop := ∀ c ∈ rest.head?, isDigit c = false

theorem span_digits (hdigits : ∀ c ∈ digits, isDigit c = true) (hrest : EndsDigits rest) :
    (digits ++ rest).span isDigit = (digits, rest) := by
  cases rest with
  | nil => rw [List.append_nil, span_eq_self hdigits]
  | cons c rest => exact span_append_cons hdigits (hrest c rfl)

theorem readInteger?_append (hdigits : ∀ c ∈ digits, isDigit c = true)
    (hcases : digits = ['0'] ∨ ∃ c tail, digits = c :: tail ∧ c ≠ '0') (hrest : EndsDigits rest) :
    Literal.readInteger? (digits ++ rest) = some (digits, rest) := by
  rcases hcases with rfl | ⟨c, tail, rfl, hc⟩
  · rfl
  · have hspan := span_digits hdigits hrest
    rw [List.cons_append] at hspan ⊢
    rw [Literal.readInteger?]
    · rw [hspan]
    · exact fun other heq => hc (List.cons.inj heq).1

theorem endsDigits_exponentText (exponent : Option Int) : EndsDigits (exponentText exponent) := by
  cases exponent with
  | none => exact nofun
  | some e =>
    rintro c ⟨⟩
    rfl

theorem endsDigits_fractionText (fraction : List Char) (exponent : Option Int) :
    EndsDigits (fractionText fraction ++ exponentText exponent) := by
  rw [fractionText]
  split
  · exact endsDigits_exponentText exponent
  · rintro c ⟨⟩
    rfl

theorem readFraction?_append {fraction : List Char} (exponent : Option Int)
    (hfraction : ∀ c ∈ fraction, isDigit c = true) :
    Literal.readFraction? (fractionText fraction ++ exponentText exponent) =
      some (fraction, exponentText exponent) := by
  rw [fractionText]
  split
  · next hnil =>
    rw [hnil, List.nil_append]
    cases exponent <;> rfl
  · next hne =>
    rw [List.cons_append, Literal.readFraction?,
      span_digits hfraction (endsDigits_exponentText exponent)]
    cases fraction with
    | nil => exact absurd rfl hne
    | cons c fraction => rfl

theorem readExponent?_digits (hne : digits ≠ []) (hdigits : ∀ c ∈ digits, isDigit c = true)
    (negative : Bool) :
    Literal.readExponent? ('e' :: (if negative then '-' else '+') :: digits) =
      some (if negative then -(ofDigits digits : Int) else ofDigits digits, []) := by
  have hspan := span_eq_self hdigits
  obtain ⟨c, rest, rfl⟩ := List.exists_cons_of_ne_nil hne
  cases negative
  all_goals
    rw [Literal.readExponent?, if_pos (.inl rfl)]
    simp only [Literal.readExponentSign, Bool.false_eq_true, if_true, if_false, hspan]

theorem readExponent?_exponentText (exponent : Option Int) :
    Literal.readExponent? (exponentText exponent) = some (exponent.getD 0, []) := by
  cases exponent with
  | none => rfl
  | some e =>
    have hdigits : ∀ c ∈ Layout.natText e.natAbs, isDigit c = true := fun c hc =>
      isDigit_of_mem_toDigits (Layout.natText_eq _ ▸ hc)
    have hvalue : ofDigits (Layout.natText e.natAbs) = e.natAbs := by
      rw [Layout.natText_eq, ofDigits_toDigits]
    have hne : Layout.natText e.natAbs ≠ [] := by
      rw [Layout.natText_eq]
      exact Nat.toDigits_ne_nil
    have hread := readExponent?_digits hne hdigits (decide (e < 0))
    simp only [decide_eq_true_eq, hvalue] at hread
    rw [exponentText, hread, Option.getD_some]
    congr 2
    split <;> omega

/-- The whole part starts with a digit. -/
theorem Valid.whole_eq (h : p.Valid) :
    ∃ c rest, p.whole = c :: rest ∧ isDigit c = true := by
  rcases h.whole_cases with heq | ⟨c, rest, heq, -⟩
  · exact ⟨'0', [], heq, rfl⟩
  · exact ⟨c, rest, heq, h.whole_digit c (heq ▸ List.mem_cons_self)⟩

theorem Valid.readSign_text (h : p.Valid) :
    Literal.readSign p.text = (p.negative, p.unsigned) := by
  obtain ⟨c, rest, hwhole, hc⟩ := h.whole_eq
  rw [text]
  cases p.negative with
  | true => rfl
  | false =>
    rw [if_neg Bool.false_ne_true, unsigned, hwhole, List.cons_append, Literal.readSign]
    rintro other heq
    rw [(List.cons.inj heq).1] at hc
    cases hc

/-- The text of valid parts is read as their literal. -/
theorem Valid.read? (h : p.Valid) : Literal.read? p.text = some p.literal := by
  have hinteger := readInteger?_append h.whole_digit h.whole_cases
    (endsDigits_fractionText p.fraction p.exponent)
  rw [Literal.read?, h.readSign_text]
  show (Literal.readInteger? p.unsigned).bind _ = _
  rw [unsigned, hinteger]
  show (Literal.readFraction? _).bind _ = _
  rw [readFraction?_append p.exponent h.fraction_digit]
  show (Literal.readExponent? _).bind _ = _
  rw [readExponent?_exponentText]
  rfl

/-- Only an exponent has a mark. -/
theorem Valid.mark_mem_text_iff (h : p.Valid) : 'e' ∈ p.text ↔ p.exponent.isSome = true := by
  have hwhole : 'e' ∉ p.whole := fun hmem => absurd (h.whole_digit 'e' hmem) (by decide)
  have hfraction : 'e' ∉ fractionText p.fraction := by
    rw [fractionText]
    split
    · exact List.not_mem_nil
    · rintro (_ | ⟨_, hmem⟩)
      exact absurd (h.fraction_digit 'e' hmem) (by decide)
  have hunsigned : 'e' ∈ p.text ↔ 'e' ∈ p.unsigned := by
    rw [text]
    split
    · exact List.mem_cons.trans (or_iff_right (by decide))
    · rfl
  rw [hunsigned, unsigned, List.mem_append, List.mem_append, or_iff_right hwhole,
    or_iff_right hfraction]
  cases p.exponent with
  | none => exact iff_of_false List.not_mem_nil Bool.false_ne_true
  | some e => exact iff_of_true List.mem_cons_self rfl

end Reading

end Parts

/-! ## The parts of a layout -/

theorem ofDigits_append (front digits : List Char) :
    ofDigits (front ++ digits) = 10 ^ digits.length * ofDigits front + ofDigits digits :=
  (Nat.ofDigitChars_append 0).trans Nat.ofDigitChars_eq_ofDigitChars_zero

theorem ofDigits_zeros (n : Nat) : ofDigits (List.replicate n '0') = 0 :=
  Nat.ofDigitChars_replicate_zero

/-- The sign of a number as a factor. -/
def signFactor (negative : Bool) : ℚ := if negative then -1 else 1

/-- The rational that a literal stands for. -/
def Literal.value (l : Literal) : ℚ := signFactor l.negative * l.coefficient * 10 ^ l.exponent

namespace Layout

/-- The parts of the text of `± d.ddd · 10 ^ leading` for the given digits. -/
def parts (l : Layout) (negative : Bool) (digits : List Char) (leading : Int) : Parts :=
  if leading < l.plainFrom ∨ l.plainTo < leading then
    ⟨negative, digits.take 1, digits.drop 1, some leading⟩
  else if digits.length ≤ leading + 1 then
    ⟨negative, digits ++ List.replicate (leading + 1 - digits.length).toNat '0',
      if l.pointed then ['0'] else [], none⟩
  else if 0 < leading + 1 then
    ⟨negative, digits.take (leading + 1).toNat, digits.drop (leading + 1).toNat, none⟩
  else ⟨negative, ['0'], List.replicate (-(leading + 1)).toNat '0' ++ digits, none⟩

section Parts

variable (l : Layout) (negative : Bool) {digits : List Char} (leading : Int)

theorem place_eq (hne : digits ≠ []) :
    l.place digits leading = (l.parts negative digits leading).unsigned := by
  have hpos := List.length_pos_iff.mpr hne
  rw [place, parts, Parts.unsigned]
  dsimp only
  split
  · rw [Parts.fractionText, Parts.exponentText, List.append_assoc]
    simp only [List.drop_eq_nil_iff]
  · split
    · rw [Parts.fractionText, Parts.exponentText, List.append_nil]
      cases l.pointed <;> rfl
    · next hlong =>
      split
      · have hdrop : digits.drop (leading + 1).toNat ≠ [] := by
          rw [ne_eq, List.drop_eq_nil_iff]
          omega
        rw [Parts.fractionText, if_neg hdrop, Parts.exponentText, List.append_nil]
      · have hback : List.replicate (-(leading + 1)).toNat '0' ++ digits ≠ [] :=
          List.append_ne_nil_of_right_ne_nil _ hne
        rw [Parts.fractionText, if_neg hback, Parts.exponentText, List.append_nil]
        rfl

theorem parts_valid (hdigits : ∀ c ∈ digits, isDigit c = true)
    (hfirst : ∃ c rest, digits = c :: rest ∧ c ≠ '0') :
    (l.parts negative digits leading).Valid := by
  have hfront (n : Nat) : ∀ c ∈ digits.take n, isDigit c = true := fun c hc =>
    hdigits c (List.mem_of_mem_take hc)
  have hback (n : Nat) : ∀ c ∈ digits.drop n, isDigit c = true := fun c hc =>
    hdigits c (List.mem_of_mem_drop hc)
  have hzeros (n : Nat) : ∀ c ∈ List.replicate n '0', isDigit c = true := fun c hc =>
    List.eq_of_mem_replicate hc ▸ rfl
  obtain ⟨c, rest, hcons, hc⟩ := hfirst
  have htake {n : Nat} (hn : 0 < n) : ∃ c rest, digits.take n = c :: rest ∧ c ≠ '0' := by
    obtain ⟨m, rfl⟩ := Nat.exists_eq_succ_of_ne_zero hn.ne'
    exact ⟨c, rest.take m, by rw [hcons]; rfl, hc⟩
  rw [parts]
  split
  · exact ⟨hfront 1, hback 1, .inr (htake Nat.one_pos)⟩
  · split
    · refine ⟨List.forall_mem_append.mpr ⟨hdigits, hzeros _⟩, ?_, ?_⟩
      · cases l.pointed
        · exact nofun
        · exact List.forall_mem_singleton.mpr rfl
      · rw [hcons]
        exact .inr ⟨c, _, rfl, hc⟩
    · split
      · next hpoint => exact ⟨hfront _, hback _, .inr (htake (by omega))⟩
      · exact ⟨List.forall_mem_singleton.mpr rfl, List.forall_mem_append.mpr ⟨hzeros _, hdigits⟩,
          .inl rfl⟩

theorem parts_negative : (l.parts negative digits leading).negative = negative := by
  rw [parts]
  split_ifs <;> rfl

theorem parts_exponent : ∀ e ∈ (l.parts negative digits leading).exponent, e = leading := by
  rw [parts]
  split_ifs
  · exact fun e he => (Option.some.inj he).symm
  all_goals exact nofun

/-- Unless zeros are appended, the parts are read as the digits. -/
theorem parts_literal (hne : digits ≠ [])
    (h : (leading < l.plainFrom ∨ l.plainTo < leading) ∨ leading + 1 < digits.length) :
    (l.parts negative digits leading).literal =
      ⟨negative, ofDigits digits, (l.parts negative digits leading).literal.length,
        leading + 1 - digits.length⟩ := by
  have hpos := List.length_pos_iff.mpr hne
  have hzero : ofDigits ['0'] = 0 := rfl
  rw [parts]
  split
  · simp only [Parts.literal, List.take_append_drop, List.length_drop, Option.getD_some,
      Literal.mk.injEq, true_and]
    omega
  · next hrange =>
    have hlong : ¬ (digits.length ≤ leading + 1) := not_le.mpr (h.resolve_left hrange)
    rw [if_neg hlong]
    split
    · simp only [Parts.literal, List.take_append_drop, List.length_drop, Option.getD_none,
        Literal.mk.injEq, true_and]
      omega
    · simp only [Parts.literal, Option.getD_none, List.length_append, List.length_replicate,
        ofDigits_append, ofDigits_zeros, hzero, Nat.mul_zero, Nat.zero_add, Literal.mk.injEq,
        true_and]
      omega

/-- Wherever the point stands, the digits denote the same. -/
theorem parts_value (hne : digits ≠ []) : (l.parts negative digits leading).literal.value =
    signFactor negative * ofDigits digits * 10 ^ (leading + 1 - digits.length) := by
  by_cases h : (leading < l.plainFrom ∨ l.plainTo < leading) ∨ leading + 1 < digits.length
  · rw [parts_literal l negative leading hne h, Literal.value]
  · obtain ⟨hrange, hlong⟩ := not_or.mp h
    have hzero : ofDigits ['0'] = 0 := rfl
    have hpower : (10 : ℚ) ^ (leading + 1 - digits.length) =
        10 ^ (leading + 1 - digits.length).toNat := by
      rw [← zpow_natCast, Int.toNat_of_nonneg (by omega)]
    rw [parts, if_neg hrange, if_pos (not_lt.mp hlong), hpower]
    -- a zero behind the point moves the exponent and multiplies the digits
    cases l.pointed
    · simp only [Parts.literal, Literal.value, Bool.false_eq_true, if_false, ofDigits_append,
        ofDigits_zeros, List.append_nil, List.length_nil, List.length_replicate, Option.getD_none]
      push_cast
      ring
    · simp only [Parts.literal, Literal.value, if_true, ofDigits_append, ofDigits_zeros,
        List.length_singleton, List.length_replicate, Option.getD_none, hzero]
      push_cast
      rw [zpow_neg_one]
      ring

end Parts

end Layout

end Remap.Decimal
