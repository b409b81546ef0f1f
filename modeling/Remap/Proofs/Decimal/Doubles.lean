import Mathlib
import Remap.Proofs.Decimal.Arithmetic

/-!
# Arithmetic on doubles

What arithmetic makes is packed into the bits of a double and taken apart again without loss, so
products and quotients of doubles are the doubles that cover the exact results, as long as these
are not too great.
-/

namespace Remap.Decimal

open Float.Model hiding pack unpack mul div neg ofNat ofInt
open Float.Model.UnpackedFloat hiding abs

/-! ## Packing -/

theorem finite_congr {s s' : Sign} {m m' : Nat} {e e' : Int} {hm : 0 < m} {hm' : 0 < m'}
    (hs : s = s') (hmantissa : m = m') (he : e = e') :
    UnpackedFloat.finite s m e hm = .finite s' m' e' hm' := by
  subst hs hmantissa he
  rfl

/-- The double with the given fields. -/
def Binary64.ofFields (negative : Bool) (field fraction : Nat) : Binary64 :=
  if field = 0 then ⟨negative, fraction, minExponent⟩
  else ⟨negative, Nat.pow 2 52 + fraction, (field : Int) - 1075⟩

theorem ofBitVec_eq (v : BitVec 1) : Sign.ofBitVec v = sign (v = 1#1) := by
  rcases BitVec.eq_zero_or_eq_one v with rfl | rfl <;> rfl

theorem unpack_eq {bits : BitVec Format.binary64.numBits} (hfield : unpackExponent bits ≠ -1#11) :
    unpack Format.binary64 bits = (Binary64.ofFields (unpackSign bits = 1#1)
      (unpackExponent bits).toNat (unpackMantissa bits).toNat).unpacked := by
  have hbias : Format.binary64.exponentBias = 1023 := rfl
  have hfraction : (unpackMantissa bits).toNat = 0 ↔ unpackMantissa bits = 0#52 :=
    ⟨fun h => BitVec.eq_of_toNat_eq h, fun h => by rw [h]; rfl⟩
  have hzero : (unpackExponent bits).toNat = 0 ↔ unpackExponent bits = 0#11 :=
    ⟨fun h => BitVec.eq_of_toNat_eq h, fun h => by rw [h]; rfl⟩
  unfold unpack
  simp only [if_neg hfield, ofBitVec_eq]
  rw [Binary64.ofFields]
  by_cases hexp : unpackExponent bits = 0#11
  · rw [if_pos hexp, if_pos (hzero.mpr hexp)]
    by_cases hmantissa : unpackMantissa bits = 0#52
    · rw [dif_pos hmantissa, Binary64.unpacked_of_eq_zero (hfraction.mpr hmantissa)]
    · rw [dif_neg hmantissa, Binary64.unpacked_of_ne_zero (mt hfraction.mp hmantissa)]
      refine finite_congr rfl rfl ?_
      rw [hbias, hexp]
      rfl
  · rw [if_neg hexp, if_neg (mt hzero.mp hexp), Binary64.unpacked_of_ne_zero
      (Nat.add_pos_left (Nat.two_pow_pos 52) _).ne']
    refine finite_congr rfl (toNat_implicit _) ?_
    rw [hbias]
    rfl

theorem unpackSign_packComponents (negative : Bool) (field : BitVec 11) (fraction : BitVec 52) :
    unpackSign (packComponents Format.binary64 (sign negative) field fraction) =
      (sign negative).toBitVec := by
  refine BitVec.eq_of_getLsbD_eq fun i hi => ?_
  obtain rfl : i = 0 := by omega
  have happend : (((sign negative).toBitVec ++ field) ++ fraction).getLsbD 63 =
      (sign negative).toBitVec.getLsbD 0 := by
    rw [BitVec.getLsbD_append, BitVec.getLsbD_append]
    rfl
  rw [unpackSign, BitVec.getLsbD_cast, BitVec.getLsbD_extract]
  exact happend

theorem unpack_packComponents {field : BitVec 11} (hfield : field ≠ -1#11) (negative : Bool)
    (fraction : BitVec 52) :
    unpack Format.binary64 (packComponents Format.binary64 (sign negative) field fraction) =
      (Binary64.ofFields negative field.toNat fraction.toNat).unpacked := by
  have hsign : decide ((sign negative).toBitVec = 1#1) = negative := by cases negative <;> rfl
  rw [unpack_eq (by rwa [unpackExponent_packComponents]), unpackExponent_packComponents,
    unpackMantissa_packComponents, unpackSign_packComponents, hsign]

/-- A double whose exponent is not too great is packed as it is. -/
theorem Binary64.Canonical.unpack_pack {b : Binary64} (hb : b.Canonical)
    (hexp : b.exponent ≤ Binary64.maxExponent) :
    unpack Format.binary64 (pack Format.binary64 b.unpacked) = b.unpacked := by
  have hmin : Binary64.minExponent = -1074 := rfl
  have hmax : Binary64.maxExponent = 971 := rfl
  have hbits : Format.binary64.mantissaBits = 53 := rfl
  have hlow := hb.exponent_ge
  have hlt := hb.significand_lt
  by_cases hzero : b.significand = 0
  · rw [unpacked_of_eq_zero hzero, pack, unpack_packedZero]
  · have hfield := exponentField_eq (e := b.exponent) (by omega)
    have hne : BitVec.ofNat 11 (b.exponent + 1075).toNat ≠ -1#11 := fun h => by
      rw [h] at hfield
      have : (-1#11).toNat = 2047 := rfl
      omega
    rw [unpacked_of_ne_zero hzero]
    simp only [pack, biased_eq]
    rw [if_neg (by omega)]
    split
    · next hlog =>
      have hnormal : 2 ^ 52 ≤ b.significand := (Nat.le_log2 hzero).mp (by omega)
      have hfraction : (BitVec.ofNat 52 b.significand).toNat = b.significand - 2 ^ 52 := by
        rw [BitVec.toNat_ofNat]
        omega
      have hexponent : ((BitVec.ofNat 11 (b.exponent + 1075).toNat).toNat : Int) - 1075 =
          b.exponent := by omega
      rw [unpack_packComponents hne, ← unpacked_of_ne_zero hzero, ofFields, if_neg (by omega),
        hfraction, hexponent, Nat.pow_eq, Nat.add_sub_cancel' hnormal]
    · next hlog =>
      have hlog' : b.significand.log2 < 53 := (Nat.log2_lt hzero).mpr hlt
      have hsubnormal : b.significand < 2 ^ 52 := (Nat.log2_lt hzero).mp (by omega)
      have hfraction : (BitVec.ofNat 52 b.significand).toNat = b.significand := by
        rw [BitVec.toNat_ofNat]
        omega
      rw [unpack_packComponents (by decide), ← unpacked_of_ne_zero hzero, ofFields,
        if_pos BitVec.toNat_zero, hfraction, ← hb.normal.resolve_left (by omega)]

/-! ## Doubles -/

variable {x y : Float} {a b c : Binary64}

theorem ofFields_canonical (negative : Bool) {field fraction : Nat} (hfraction : fraction < 2 ^ 52)
    (hfield : field < 2047) : (Binary64.ofFields negative field fraction).Canonical ∧
      (Binary64.ofFields negative field fraction).exponent ≤ Binary64.maxExponent := by
  have hmin : Binary64.minExponent = -1074 := rfl
  have hmax : Binary64.maxExponent = 971 := rfl
  rw [Binary64.ofFields]
  split
  · exact ⟨⟨by dsimp only; omega, le_rfl, .inr rfl⟩, by dsimp only; omega⟩
  · refine ⟨⟨?_, by dsimp only; omega, .inl (Nat.le_add_right _ _)⟩, by dsimp only; omega⟩
    show 2 ^ 52 + fraction < 2 ^ 53
    omega

/-- The parts of a double are those that arithmetic sees. -/
theorem Binary64.unpack_of_ofFloat? (h : ofFloat? x = some b) :
    x.toModel.unpack = b.unpacked ∧ b.Canonical ∧ b.exponent ≤ maxExponent := by
  obtain ⟨bits, hbits⟩ : ∃ bits : BitVec Format.binary64.numBits, bits = x.toBits.toBitVec :=
    ⟨_, rfl⟩
  have hunpack : x.toModel.unpack = unpack Format.binary64 bits := by rw [hbits]; rfl
  have hfield : x.toBits.toNat / 2 ^ 52 % 2 ^ 11 = (unpackExponent bits).toNat := by
    simp only [hbits, unpackExponent_def, BitVec.extractLsb'_toNat, Nat.shiftRight_eq_div_pow]
    rfl
  have hfraction : x.toBits.toNat % 2 ^ 52 = (unpackMantissa bits).toNat := by
    simp only [hbits, unpackMantissa_def, BitVec.extractLsb'_toNat, Nat.shiftRight_zero]
    rfl
  have hsign : x.toBits.toNat / 2 ^ 63 = (unpackSign bits).toNat := by
    simp only [hbits, unpackSign_def, BitVec.extractLsb'_toNat, Nat.shiftRight_eq_div_pow]
    exact (Nat.mod_eq_of_lt (Nat.div_lt_of_lt_mul x.toBits.toNat_lt)).symm
  have hone : (unpackSign bits).toNat = 1 ↔ unpackSign bits = 1#1 :=
    ⟨fun h => BitVec.eq_of_toNat_eq h, fun h => by rw [h]; rfl⟩
  have hall : (unpackExponent bits).toNat = 2047 ↔ unpackExponent bits = -1#11 :=
    ⟨fun h => BitVec.eq_of_toNat_eq h, fun h => by rw [h]; rfl⟩
  simp only [ofFloat?, Nat.pow_eq, hfield, hfraction, hsign, hone] at h
  split at h
  · cases h
  · next hne =>
    have hlt : (unpackExponent bits).toNat < 2047 := by
      have : (unpackExponent bits).toNat < 2048 := (unpackExponent bits).isLt
      omega
    have hb : ofFields (unpackSign bits = 1#1) (unpackExponent bits).toNat
        (unpackMantissa bits).toNat = b := by
      rw [ofFields]
      split at h
      · next hzero => rw [if_pos hzero]; exact Option.some.inj h
      · next hzero => rw [if_neg hzero]; exact Option.some.inj h
    rw [hunpack, unpack_eq (mt hall.mpr hne), hb, ← hb]
    exact ⟨rfl, ofFields_canonical _ (unpackMantissa bits).isLt hlt⟩

theorem Binary64.ext {b c : Binary64} (hnegative : b.negative = c.negative)
    (hsignificand : b.significand = c.significand) (hexponent : b.exponent = c.exponent) :
    b = c := by
  obtain ⟨negative, significand, exponent⟩ := b
  obtain ⟨negative', significand', exponent'⟩ := c
  obtain rfl : negative = negative' := hnegative
  obtain rfl : significand = significand' := hsignificand
  obtain rfl : exponent = exponent' := hexponent
  rfl

/-- A canonical double is determined by what arithmetic sees of it. -/
theorem Binary64.Canonical.eq_of_unpacked_eq (hb : b.Canonical) (hc : c.Canonical)
    (h : b.unpacked = c.unpacked) : b = c := by
  have hsign : ∀ m n : Bool, sign m = sign n → m = n := by
    intro m n hmn
    cases m <;> cases n <;> first | rfl | cases hmn
  have hzero {d : Binary64} (hd : d.Canonical) (hzero : d.significand = 0) :
      d.exponent = minExponent := hd.normal.resolve_left (by rw [hzero]; norm_num)
  by_cases hb' : b.significand = 0 <;> by_cases hc' : c.significand = 0
  · rw [unpacked_of_eq_zero hb', unpacked_of_eq_zero hc', UnpackedFloat.zero.injEq] at h
    exact ext (hsign _ _ h) (hb'.trans hc'.symm) ((hzero hb hb').trans (hzero hc hc').symm)
  · rw [unpacked_of_eq_zero hb', unpacked_of_ne_zero hc'] at h
    cases h
  · rw [unpacked_of_ne_zero hb', unpacked_of_eq_zero hc'] at h
    cases h
  · rw [unpacked_of_ne_zero hb', unpacked_of_ne_zero hc', UnpackedFloat.finite.injEq] at h
    exact ext (hsign _ _ h.1) h.2.1 h.2.2

theorem Binary64.ofFloat?_of_unpack (hb : b.Canonical) (h : x.toModel.unpack = b.unpacked) :
    ofFloat? x = some b := by
  have hfinite : x.isFinite = true := by
    have : x.toModel.unpack.isFinite = true := by
      rw [h, unpacked]
      split <;> rfl
    exact this
  obtain ⟨c, hc⟩ := Option.isSome_iff_exists.mp (isSome_ofFloat?_iff.mpr hfinite)
  obtain ⟨hunpack, hcanonical, -⟩ := unpack_of_ofFloat? hc
  rw [hc, hcanonical.eq_of_unpacked_eq hb (hunpack.symm.trans h)]

/-- Whether a rational with a sign is rounded to a double with these parts, or to an infinite one if
their exponent is too great. -/
structure Binary64.IsRounding (b : Binary64) (x : Float) (negative : Bool) (q : ℚ) : Prop where
  canonical : b.Canonical
  negative_eq : b.negative = negative
  covers : b.Covers q
  parts : b.exponent ≤ maxExponent → ofFloat? x = some b
  le_max : x.isFinite = true → b.exponent ≤ maxExponent

theorem not_isFinite_of_lt (hb : b.Canonical) (hlarge : Binary64.maxExponent < b.exponent) :
    (unpack Format.binary64 (pack Format.binary64 b.unpacked)).isFinite ≠ true := by
  have hmax : Binary64.maxExponent = 971 := rfl
  have hmin : Binary64.minExponent = -1074 := rfl
  have hne : b.significand ≠ 0 := by
    have := hb.normal.resolve_right (by omega)
    omega
  have hpack : pack Format.binary64 b.unpacked =
      packedInfinity Format.binary64 (sign b.negative) := by
    rw [Binary64.unpacked_of_ne_zero hne]
    simp only [pack, biased_eq]
    exact if_pos (by omega)
  rw [hpack, ne_eq, isFinite_unpack, packedInfinity, unpackExponent_packComponents, not_not]

theorem Rounds.exists_isRounding {u : UnpackedFloat} {negative : Bool} {q : ℚ}
    (h : Rounds u negative q) (hx : x.toModel = Float.Model.pack u) :
    ∃ b : Binary64, b.IsRounding x negative q := by
  obtain ⟨b, hb, hsign, hcovers, rfl⟩ := h
  refine ⟨b, hb, hsign, hcovers, fun hexp => Binary64.ofFloat?_of_unpack hb ?_, fun hfinite => ?_⟩
  · rw [hx]
    exact hb.unpack_pack hexp
  · have hfinite : x.toModel.unpack.isFinite = true := hfinite
    rw [hx] at hfinite
    exact not_lt.mp fun hlarge => not_isFinite_of_lt hb hlarge hfinite

theorem Binary64.exists_isRounding_mul (hx : ofFloat? x = some a) (hy : ofFloat? y = some b) :
    ∃ c : Binary64, c.IsRounding (x * y) (a.negative ^^ b.negative) (a.abs * b.abs) := by
  obtain ⟨hx, ha, -⟩ := unpack_of_ofFloat? hx
  obtain ⟨hy, hb, -⟩ := unpack_of_ofFloat? hy
  have h := rounds_mul ha hb
  rw [← hx, ← hy] at h
  exact h.exists_isRounding rfl

theorem Binary64.exists_isRounding_div (hx : ofFloat? x = some a) (hy : ofFloat? y = some b)
    (hb : b.significand ≠ 0) :
    ∃ c : Binary64, c.IsRounding (x / y) (a.negative ^^ b.negative) (a.abs / b.abs) := by
  have h := rounds_div (a := a) hb
  rw [← (unpack_of_ofFloat? hx).1, ← (unpack_of_ofFloat? hy).1] at h
  exact h.exists_isRounding rfl

/-- A whole number of 64 bits is rounded to a finite double. -/
theorem Binary64.exists_isRounding_toFloat (n : UInt64) :
    ∃ b : Binary64, b.IsRounding n.toFloat false n.toNat ∧ ofFloat? n.toFloat = some b := by
  obtain ⟨b, hb⟩ := (rounds_ofNat n.toNat).exists_isRounding (x := n.toFloat) rfl
  exact ⟨b, hb, hb.parts (hb.le_max (below_toFloat n).isFinite)⟩

theorem Binary64.ofFloat?_neg (hx : ofFloat? x = some b) :
    ofFloat? (-x) = some ⟨!b.negative, b.significand, b.exponent⟩ := by
  obtain ⟨hunpack, hb, hexp⟩ := unpack_of_ofFloat? hx
  have hcanonical : (⟨!b.negative, b.significand, b.exponent⟩ : Binary64).Canonical :=
    ⟨hb.significand_lt, hb.exponent_ge, hb.normal⟩
  have hsign : sign (!b.negative) = - sign b.negative := by cases b.negative <;> rfl
  have hneg : x.toModel.unpack.neg =
      (⟨!b.negative, b.significand, b.exponent⟩ : Binary64).unpacked := by
    rw [hunpack, unpacked, unpacked]
    split
    · rw [UnpackedFloat.neg, hsign]
    · rw [UnpackedFloat.neg, hsign]
  refine ofFloat?_of_unpack hcanonical ?_
  show unpack Format.binary64 (pack Format.binary64 x.toModel.unpack.neg) = _
  rw [hneg, hcanonical.unpack_pack hexp]

theorem Binary64.isInf_of_ofFloat? (hx : ofFloat? x = some b) : x.isInf = false := by
  have h : x.toModel.unpack.isInf = false := by
    rw [(unpack_of_ofFloat? hx).1, unpacked]
    split <;> rfl
  exact h

/-- Finite doubles with the same parts are equal. -/
theorem Binary64.beq_of_ofFloat? (hx : ofFloat? x = some b) (hy : ofFloat? y = some b) :
    (x == y) = true := by
  have h : x.toModel.unpack.beq y.toModel.unpack = true := by
    rw [(unpack_of_ofFloat? hx).1, (unpack_of_ofFloat? hy).1, unpacked]
    split
    · rfl
    · cases b.negative <;> simp [UnpackedFloat.beq, UnpackedFloat.compare, sign]
  exact h

theorem Binary64.beq_zero_of_ofFloat? (hx : ofFloat? x = some b) (hb : b.significand ≠ 0) :
    (x == 0.0) = false := by
  have hzero : (0.0 : Float).toModel.unpack = .zero .positive := by rfl
  have h : x.toModel.unpack.beq (0.0 : Float).toModel.unpack = false := by
    rw [(unpack_of_ofFloat? hx).1, unpacked_of_ne_zero hb, hzero]
    cases b.negative <;> rfl
  exact h

/-- Both zeros are equal. -/
theorem Binary64.beq_of_zero (hx : ofFloat? x = some a) (hy : ofFloat? y = some b)
    (ha : a.significand = 0) (hb : b.significand = 0) : (x == y) = true := by
  have h : x.toModel.unpack.beq y.toModel.unpack = true := by
    rw [(unpack_of_ofFloat? hx).1, (unpack_of_ofFloat? hy).1, unpacked_of_eq_zero ha,
      unpacked_of_eq_zero hb]
    rfl
  exact h

end Remap.Decimal
