import Mathlib
import Remap.Decimal.Binary64

/-!
# Finite doubles

What double arithmetic makes out of finite doubles is no NaN, and it is finite as long as it is not
too great. The bounds here are loose: each step may add a bit.
-/

namespace Remap.Decimal

open Float.Model hiding pack unpack mul div neg ofNat ofInt
open Float.Model.UnpackedFloat

/-- Finite doubles less than `2 ^ bound`. -/
def Below (bound : Int) : UnpackedFloat → Prop
  | .zero _ => True
  | .finite _ m e _ => totalExponent m e ≤ bound
  | .infinity _ | .notANumber => False

variable {a b bound : Int} {m n k : Nat} {e : Int} {s : Sign} {u v : UnpackedFloat}

theorem Below.mono (h : Below a u) (hab : a ≤ b) : Below b u := by
  cases u with
  | zero => trivial
  | finite => exact Int.le_trans h hab
  | infinity | notANumber => exact h

theorem Below.isFinite (h : Below bound u) : u.isFinite = true := by
  cases u with
  | zero | finite => rfl
  | infinity | notANumber => exact h.elim

/-! ## Rounding -/

theorem mantissa_shiftRight (em : ExtendedMantissa) (k : Nat) :
    (em >>> k).mantissa = em.mantissa / 2 ^ k := by
  induction k generalizing em with
  | zero => exact (Nat.div_one _).symm
  | succ k ih =>
    have hlast : (em >>> (k + 1)).mantissa = (em >>> k).mantissa / 2 := rfl
    rw [hlast, ih, Nat.div_div_eq_div_mul, Nat.pow_succ]

theorem roundedMantissa_le (em : ExtendedMantissa) : em.roundedMantissa ≤ em.mantissa + 1 := by
  obtain ⟨m, round, sticky⟩ := em
  cases round <;> cases sticky <;>
    simp [ExtendedMantissa.roundedMantissa, ExtendedMantissa.accuracy, Accuracy.roundToNearestEven]
  omega

theorem mantissa_ofMantissaAndAccuracy (m : Nat) (acc : Accuracy) :
    (ExtendedMantissa.ofMantissaAndAccuracy m acc).mantissa = m := by
  rcases acc with _ | (_ | _ | _) <;> rfl

theorem targetExponent_eq (t : Int) : Format.binary64.targetExponent t = max (t - 53) (-1074) := by
  simp [Format.targetExponent, Format.mantissaBits, Format.minExponent]

/-- The leading bit of what is left of a significand when it is cut and rounded. -/
theorem log2_le_of_le_div (h : n ≤ m / 2 ^ k + 1) : n.log2 + k ≤ max (m.log2 + 1) k := by
  by_cases hn : n ≤ 1
  · have hlog : n.log2 = 0 := by
      rcases Nat.le_one_iff_eq_zero_or_eq_one.mp hn with rfl | rfl <;> decide
    omega
  · have hcut : 2 ^ n.log2 ≤ 2 * (m / 2 ^ k) := (Nat.log2_self_le (by omega)).trans (by omega)
    have hm : 2 ^ (n.log2 + k) < 2 ^ (m.log2 + 2) := calc
      2 ^ (n.log2 + k) = 2 ^ n.log2 * 2 ^ k := Nat.pow_add ..
      _ ≤ 2 * (m / 2 ^ k) * 2 ^ k := Nat.mul_le_mul_right _ hcut
      _ ≤ 2 * m := by
        rw [Nat.mul_assoc]
        exact Nat.mul_le_mul_left 2 (Nat.div_mul_le_self ..)
      _ < 2 ^ (m.log2 + 2) := by
        have := @Nat.lt_log2_self m
        rw [Nat.pow_succ]
        omega
    have := (Nat.pow_lt_pow_iff_right Nat.one_lt_two).mp hm
    omega

/-- A significand is cut to 53 bits, and further where its exponent would be too low. -/
theorem shiftToTargetExponent_eq {acc : Accuracy} {em : ExtendedMantissa} {e' : Int}
    (h : shiftToTargetExponent Format.binary64 m e acc = (em, e')) :
    ∃ k : Nat, em.mantissa = m / 2 ^ k ∧ e' = e + k ∧
      e' = max e (max (totalExponent m e - 53) (-1074)) := by
  simp only [shiftToTargetExponent, shiftToExponent, targetExponent_eq, Prod.mk.injEq] at h
  obtain ⟨rfl, rfl⟩ := h
  refine ⟨_, ?_, rfl, by omega⟩
  rw [mantissa_shiftRight, mantissa_ofMantissaAndAccuracy]

/-- Rounding adds at most a bit to a significand, and leaves 53 bits of it. -/
theorem roundWithAccuracy_cases (s : Sign) (m : Nat) (e : Int) (acc : Accuracy) :
    roundWithAccuracy Format.binary64 s m e acc = .zero s ∨
      ∃ m' e' h, roundWithAccuracy Format.binary64 s m e acc = .finite s m' e' h ∧
        e' ≤ max e (max (totalExponent m e - 52) (-1074)) := by
  unfold roundWithAccuracy
  obtain ⟨first, e₁, hfirst⟩ : ∃ em e₁, shiftToTargetExponent Format.binary64 m e acc = (em, e₁) :=
    ⟨_, _, rfl⟩
  obtain ⟨last, e₂, hlast⟩ : ∃ em e₂, shiftToTargetExponent Format.binary64 first.roundedMantissa
      e₁ .exact = (em, e₂) := ⟨_, _, rfl⟩
  simp only [hfirst, hlast]
  split
  · exact .inl rfl
  · next h =>
    -- Rounding up may have made 54 bits of 53, which the second shift takes back.
    refine .inr ⟨last.mantissa, e₂, Nat.pos_of_ne_zero h, rfl, ?_⟩
    obtain ⟨k, hcut, hk, he₁⟩ := shiftToTargetExponent_eq hfirst
    obtain ⟨-, -, -, he₂⟩ := shiftToTargetExponent_eq hlast
    have hlog := log2_le_of_le_div (hcut ▸ roundedMantissa_le first)
    rw [totalExponent] at he₁ he₂ ⊢
    omega

/-! ## Packing -/

theorem toNat_implicit (fraction : BitVec 52) :
    (1#1 ++ fraction).toNat = 2 ^ 52 + fraction.toNat := by
  rw [BitVec.toNat_append, ← Nat.shiftLeft_add_eq_or_of_lt fraction.isLt]
  rfl

theorem below_unpack_packComponents {field : BitVec 11} (hfield : field ≠ -1#11)
    (fraction : BitVec 52) : Below ((field.toNat : Int) - 1022)
      (unpack Format.binary64 (packComponents Format.binary64 s field fraction)) := by
  have hfraction := fraction.isLt
  have hbias : Format.binary64.exponentBias = 1023 := rfl
  unfold unpack
  simp only [unpackExponent_packComponents, unpackMantissa_packComponents]
  rw [if_neg hfield]
  split
  · next hzero =>
    split
    · trivial
    · next hne =>
      have hne : fraction.toNat ≠ 0 := fun h => hne (BitVec.eq_of_toNat_eq h)
      have hlog := (Nat.log2_lt hne).mpr hfraction
      simp only [Below, totalExponent, hzero]
      rw [hbias, BitVec.toNat_zero]
      omega
  · have hlog : (1#1 ++ fraction).toNat.log2 < 53 :=
      (Nat.log2_lt (by rw [toNat_implicit]; omega)).mpr (by rw [toNat_implicit]; omega)
    simp only [Below, totalExponent]
    rw [hbias]
    omega

theorem biased_eq (e : Int) :
    e + (Format.binary64.exponentBias : Int) + (52 : Nat) = e + 1075 := by
  rw [show Format.binary64.exponentBias = 1023 from rfl]
  omega

/-- The field of an exponent that is not too great. -/
theorem exponentField_eq (he : e ≤ 971) :
    ((BitVec.ofNat 11 (e + 1075).toNat).toNat : Int) = max (e + 1075) 0 := by
  rw [BitVec.toNat_ofNat, Nat.mod_eq_of_lt (by omega)]
  omega

/-- What is packed without its exponent being too great is finite. -/
theorem below_unpack_pack (hm : 0 < m) (he : e ≤ 971) : Below (max (e + 53) (-1022))
    (unpack Format.binary64 (pack Format.binary64 (.finite s m e hm))) := by
  have hfield := exponentField_eq he
  simp only [pack, biased_eq]
  split
  · next h => exact absurd h (by omega)
  · split
    · refine (below_unpack_packComponents (fun h => ?_) _).mono (by omega)
      rw [h] at hfield
      have : (-1#11).toNat = 2047 := rfl
      omega
    · exact (below_unpack_packComponents (by decide) _).mono (Int.le_max_right ..)

/-- What is no NaN is none when it is packed. -/
theorem unpack_pack_ne_notANumber (hu : u ≠ .notANumber) :
    unpack Format.binary64 (pack Format.binary64 u) ≠ .notANumber := by
  have infinite (s : Sign) :
      unpack Format.binary64 (packedInfinity Format.binary64 s) ≠ .notANumber := by
    simp [unpack, packedInfinity]
  cases u with
  | notANumber => exact absurd rfl hu
  | infinity s => exact infinite s
  | zero s =>
    rw [pack, unpack_packedZero]
    exact nofun
  | finite s m e hm =>
    by_cases he : e ≤ 971
    · intro h
      have := below_unpack_pack (s := s) hm he
      rw [h] at this
      exact this
    · have hpack : pack Format.binary64 (.finite s m e hm) = packedInfinity Format.binary64 s := by
        simp only [pack, biased_eq]
        exact if_pos (by omega)
      rw [hpack]
      exact infinite s

theorem isFinite_unpack (b : BitVec Format.binary64.numBits) :
    (unpack Format.binary64 b).isFinite = true ↔ unpackExponent b ≠ -1#11 := by
  simp only [unpack]
  split
  · next h => exact iff_of_false (by split <;> exact Bool.false_ne_true) fun hne => hne h
  · next h =>
    refine iff_of_true ?_ h
    split
    · split <;> rfl
    · rfl

theorem exponent_le_of_unpack {b : BitVec Format.binary64.numBits} {hm : 0 < m}
    (h : unpack Format.binary64 b = .finite s m e hm) : e ≤ 971 := by
  have hfield : unpackExponent b ≠ -1#11 := (isFinite_unpack b).mp (by rw [h]; rfl)
  have hlt : (unpackExponent b).toNat < 2047 := by
    have hne : (unpackExponent b).toNat ≠ 2047 := fun h => hfield (BitVec.eq_of_toNat_eq h)
    have : (unpackExponent b).toNat < 2048 := (unpackExponent b).isLt
    omega
  have hbias : Format.binary64.exponentBias = 1023 := rfl
  unfold unpack at h
  simp only [if_neg hfield] at h
  split at h
  · next hzero =>
    split at h
    · cases h
    · obtain ⟨-, -, rfl⟩ := finite.inj h
      rw [hbias, hzero, BitVec.toNat_zero]
      omega
  · obtain ⟨-, -, rfl⟩ := finite.inj h
    rw [hbias]
    omega

theorem isFinite_unpack_pack_neg {b : BitVec Format.binary64.numBits}
    (hb : (unpack Format.binary64 b).isFinite = true) :
    (unpack Format.binary64 (pack Format.binary64 (unpack Format.binary64 b).neg)).isFinite
      = true := by
  cases hu : unpack Format.binary64 b with
  | infinity | notANumber =>
    rw [hu] at hb
    cases hb
  | zero s =>
    rw [neg, pack, unpack_packedZero]
    rfl
  | finite s m e hm => exact (below_unpack_pack hm (exponent_le_of_unpack hu)).isFinite

/-! ## Arithmetic -/

theorem below_roundWithAccuracy (s : Sign) (acc : Accuracy) (hm : totalExponent m e < bound)
    (he : e + 52 < bound) (hlow : 0 ≤ bound) (hbound : bound ≤ 1023) : Below bound
      (unpack Format.binary64 (pack Format.binary64
        (roundWithAccuracy Format.binary64 s m e acc))) := by
  rcases roundWithAccuracy_cases s m e acc with hround | ⟨m', e', hm', hround, he'⟩
  · rw [hround, pack, unpack_packedZero]
    trivial
  · rw [hround]
    exact (below_unpack_pack hm' (by omega)).mono (by omega)

/-- Whether a double is at least one. -/
def isAtLeastOne : UnpackedFloat → Bool
  | .finite .positive m e _ => 1 ≤ totalExponent m e
  | _ => false

theorem log2_div_add_log2_le (h : m / n ≠ 0) : (m / n).log2 + n.log2 ≤ m.log2 := by
  have hn : n ≠ 0 := by
    rintro rfl
    exact h (Nat.div_zero m)
  have hm : 2 ^ ((m / n).log2 + n.log2) < 2 ^ (m.log2 + 1) := calc
    2 ^ ((m / n).log2 + n.log2) = 2 ^ (m / n).log2 * 2 ^ n.log2 := Nat.pow_add ..
    _ ≤ m / n * n := Nat.mul_le_mul (Nat.log2_self_le h) (Nat.log2_self_le hn)
    _ ≤ m := Nat.div_mul_le_self m n
    _ < 2 ^ (m.log2 + 1) := Nat.lt_log2_self
  exact Nat.le_of_lt_succ ((Nat.pow_lt_pow_iff_right Nat.one_lt_two).mp hm)

theorem log2_shiftLeft (hm : m ≠ 0) : (m <<< k).log2 = m.log2 + k := by
  induction k with
  | zero => rfl
  | succ k ih =>
    have hne : m <<< k ≠ 0 := by
      rw [Nat.shiftLeft_eq]
      exact Nat.mul_ne_zero hm (Nat.two_pow_pos k).ne'
    rw [Nat.shiftLeft_succ, Nat.log2_two_mul hne, ih, Nat.add_assoc]

/-- A quotient by something that is at least one is no greater than what was divided, up to the
rounding. -/
theorem below_div (hu : Below bound u) (hv : isAtLeastOne v = true) (hlow : 0 ≤ bound)
    (hbound : bound ≤ 1022) : Below (bound + 1)
      (unpack Format.binary64 (pack Format.binary64 (div Format.binary64 u v))) := by
  obtain ⟨m₂, e₂, hm₂, rfl⟩ : ∃ m e h, v = .finite .positive m e h := by
    unfold isAtLeastOne at hv
    split at hv
    · exact ⟨_, _, _, rfl⟩
    · exact absurd hv Bool.false_ne_true
  have hone : 1 ≤ totalExponent m₂ e₂ := of_decide_eq_true hv
  cases u with
  | zero s₁ =>
    rw [div, pack, unpack_packedZero]
    trivial
  | infinity | notANumber => exact hu.elim
  | finite s₁ m₁ e₁ hm₁ =>
    have hu : totalExponent m₁ e₁ ≤ bound := hu
    -- The dividend is shifted down to the exponent `T`, so that the quotient has bits to spare.
    simp only [div, divCore, targetExponent_eq]
    generalize hT : min (e₁ - e₂) (max (totalExponent m₁ e₁ - totalExponent m₂ e₂ - 53) (-1074)) = T
    have hshift : (m₁ <<< (e₁ - e₂ - T).toNat).log2 = m₁.log2 + (e₁ - e₂ - T).toNat :=
      log2_shiftLeft hm₁.ne'
    have hlog := @log2_div_add_log2_le (m₁ <<< (e₁ - e₂ - T).toNat) m₂
    refine below_roundWithAccuracy _ _ ?_ (by omega) (by omega) (by omega)
    rw [totalExponent] at hone hu hT ⊢
    rw [totalExponent] at hT
    -- A quotient of zero has no leading bit; its exponent alone is bounded.
    by_cases hm : (m₁ <<< (e₁ - e₂ - T).toNat) / m₂ = 0
    · rw [hm, Nat.log2_zero]
      omega
    · have := hlog hm
      omega

/-- A whole number has as many bits as a double. -/
theorem below_ofNat (hn : n < 2 ^ 64) : Below 65
    (unpack Format.binary64 (pack Format.binary64 (ofNat Format.binary64 n))) := by
  unfold ofNat ofInt UnpackedFloat.normalize
  split
  · next h => exact absurd (Int.compare_eq_lt.mp h) (by omega)
  · rw [pack, unpack_packedZero]
    trivial
  · next h =>
    have hpos : n ≠ 0 := by
      have := Int.compare_eq_gt.mp h
      omega
    have hlog := (Nat.log2_lt hpos).mpr hn
    simp only [UnpackedFloat.round, decreaseExponent, Int.toNat_natCast]
    refine below_roundWithAccuracy _ _ ?_ (by omega) (by omega) (by omega)
    rw [totalExponent, log2_shiftLeft hpos]
    omega

theorem mul_ne_notANumber (hu : u.isFinite = true) (hv : v.isFinite = true) :
    mul Format.binary64 u v ≠ .notANumber := by
  cases u with
  | infinity | notANumber => cases hu
  | zero =>
    cases v with
    | infinity | notANumber => cases hv
    | zero | finite => simp [mul]
  | finite s₁ m₁ e₁ =>
    cases v with
    | infinity | notANumber => cases hv
    | zero => simp [mul]
    | finite s₂ m₂ e₂ =>
      have hcases := roundWithAccuracy_cases (s₁ * s₂) (m₁ * m₂) (e₁ + e₂) .exact
      rw [mul]
      rcases hcases with h | ⟨_, _, _, h, -⟩ <;> rw [h] <;> exact nofun

/-! ## Doubles -/

variable {x y : Float}

theorem below_toFloat (n : UInt64) : Below 65 n.toFloat.toModel.unpack := below_ofNat n.toNat_lt

theorem below_divide (hx : Below bound x.toModel.unpack) (hy : isAtLeastOne y.toModel.unpack = true)
    (hlow : 0 ≤ bound) (hbound : bound ≤ 1022) : Below (bound + 1) (x / y).toModel.unpack :=
  below_div hx hy hlow hbound

/-- A product of finite doubles is finite unless it is infinite. -/
theorem isFinite_mul (hx : x.isFinite = true) (hy : y.isFinite = true)
    (h : (x * y).isInf = false) : (x * y).isFinite = true := by
  have hne : (x * y).toModel.unpack ≠ .notANumber :=
    unpack_pack_ne_notANumber (mul_ne_notANumber hx hy)
  have h : (x * y).toModel.unpack.isInf = false := h
  have : (x * y).toModel.unpack.isFinite = true := by
    cases hu : (x * y).toModel.unpack with
    | zero | finite => rfl
    | notANumber => exact absurd hu hne
    | infinity s =>
      rw [hu] at h
      cases h
  exact this

theorem isFinite_neg (hx : x.isFinite = true) : (-x).isFinite = true :=
  isFinite_unpack_pack_neg (b := x.toBits.toBitVec) hx

theorem isFinite_of_isAtLeastOne (hx : isAtLeastOne x.toModel.unpack = true) :
    x.isFinite = true := by
  have : x.toModel.unpack.isFinite = true := by
    unfold isAtLeastOne at hx
    split at hx
    · next h => rw [h]; rfl
    · cases hx
  exact this

/-- The finite doubles are those that have parts. -/
theorem isSome_ofFloat?_iff : (Binary64.ofFloat? x).isSome = true ↔ x.isFinite = true := by
  let field : BitVec 11 := @unpackExponent Format.binary64 x.toBits.toBitVec
  have hfinite : x.isFinite = true ↔ field ≠ -1#11 := isFinite_unpack _
  have hfield : x.toBits.toNat / 2 ^ 52 % 2 ^ 11 = field.toNat := by
    simp only [field, unpackExponent_def, BitVec.extractLsb'_toNat, Nat.shiftRight_eq_div_pow]
    rfl
  have hall : field.toNat = 2047 ↔ field = -1#11 :=
    ⟨fun h => BitVec.eq_of_toNat_eq h, fun h => by rw [h]; rfl⟩
  rw [hfinite, Binary64.ofFloat?, ← not_iff_not, not_not, ← hall]
  simp only [Nat.pow_eq, hfield]
  split_ifs with h <;> simp [h]

end Remap.Decimal
