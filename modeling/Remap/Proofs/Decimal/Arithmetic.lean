import Mathlib
import Remap.Proofs.Decimal.Finite
import Remap.Proofs.Decimal.Nearest

/-!
# Double arithmetic is correctly rounded

Products, quotients and whole numbers are cut to their leading bits and rounded by the bits that
were cut off. What is left is the double that covers the exact result. Above the greatest exponent
it is infinite.
-/

namespace Remap.Decimal

open Float.Model hiding pack unpack mul div neg ofNat ofInt
open Float.Model.UnpackedFloat hiding abs

variable {em : ExtendedMantissa} {y z : ℚ} {m k : Nat} {e t : Int} {acc : Accuracy} {s : Sign}

/-! ## Bits that are cut off -/

/-- The rational that a significand and the bit behind it stand for. -/
def leadingValue (em : ExtendedMantissa) : ℚ := em.mantissa + em.roundBit.toNat / 2

/-- Whether a significand and the two bits behind it are those of a rational. The first of the two
is worth half a unit, and the other one stands for all bits behind it. -/
def Represents (em : ExtendedMantissa) (y : ℚ) : Prop :=
  if em.stickyBit then leadingValue em < y ∧ y < leadingValue em + 1 / 2 else y = leadingValue em

theorem Represents.bounds (h : Represents em y) : em.mantissa ≤ y ∧ y < em.mantissa + 1 := by
  obtain ⟨m, round, sticky⟩ := em
  cases round <;> cases sticky <;> simp [Represents, leadingValue] at h ⊢ <;>
    constructor <;> linarith

theorem leadingValue_shiftRightOne (em : ExtendedMantissa) :
    leadingValue em.shiftRightOne = em.mantissa / 2 := by
  have hm : ((em.mantissa / 2 : ℕ) : ℚ) * 2 + (em.mantissa % 2 : ℕ) = em.mantissa := by
    exact_mod_cast Nat.div_add_mod' em.mantissa 2
  have hbit : (em.mantissa % 2 != 0).toNat = em.mantissa % 2 := by
    rcases Nat.mod_two_eq_zero_or_one em.mantissa with hlast | hlast <;> rw [hlast] <;> rfl
  simp only [leadingValue, ExtendedMantissa.shiftRightOne, hbit]
  linarith

/-- The bit behind the significand is among those behind it when one more is cut off. -/
theorem Represents.shiftRightOne (h : Represents em y) : Represents em.shiftRightOne (y / 2) := by
  rw [Represents, leadingValue_shiftRightOne]
  obtain ⟨m, round, sticky⟩ := em
  cases round <;> cases sticky <;>
    simp [Represents, leadingValue, ExtendedMantissa.shiftRightOne] at h ⊢
  · exact h
  all_goals constructor <;> linarith

theorem Represents.shiftRight (h : Represents em y) (k : Nat) :
    Represents (em >>> k) (y / 2 ^ k) := by
  induction k with
  | zero => rwa [pow_zero, div_one]
  | succ k ih =>
    rw [pow_succ, ← div_div]
    exact ih.shiftRightOne

/-- Whether a whole number is nearest to a rational, and even if another one is as near. -/
def NearestEven (y : ℚ) (k : ℕ) : Prop :=
  (k - 1 / 2 < y ∧ y < k + 1 / 2) ∨ (k % 2 = 0 ∧ k - 1 / 2 ≤ y ∧ y ≤ k + 1 / 2)

theorem Represents.nearestEven (h : Represents em y) : NearestEven y em.roundedMantissa := by
  obtain ⟨m, round, sticky⟩ := em
  cases round <;> cases sticky <;>
    simp [Represents, leadingValue, ExtendedMantissa.roundedMantissa, ExtendedMantissa.accuracy,
      Accuracy.roundToNearestEven] at h ⊢
  · exact .inl (by constructor <;> linarith)
  · exact .inl (by constructor <;> linarith)
  · refine .inr ⟨by omega, ?_⟩
    rcases Nat.mod_two_eq_zero_or_one m with hlast | hlast <;> rw [hlast] <;> push_cast <;>
      constructor <;> linarith
  · refine .inl ?_
    push_cast
    constructor <;> linarith

/-! ## Rounding -/

def sign (negative : Bool) : Sign := if negative then .negative else .positive

/-- A finite double as arithmetic sees it. -/
def Binary64.unpacked (b : Binary64) : UnpackedFloat :=
  if h : b.significand = 0 then .zero (sign b.negative)
  else .finite (sign b.negative) b.significand b.exponent (Nat.pos_of_ne_zero h)

/-- The double with a significand of at most `2 ^ 53`. -/
def carry (negative : Bool) (k : Nat) (t : Int) : Binary64 :=
  if k = 2 ^ 53 then ⟨negative, 2 ^ 52, t + 1⟩ else ⟨negative, k, t⟩

variable {negative : Bool} {x : ℚ}

theorem carry_canonical (hk : k ≤ 2 ^ 53) (ht : Binary64.minExponent ≤ t)
    (hnormal : 2 ^ 52 ≤ k ∨ t = Binary64.minExponent) : (carry negative k t).Canonical := by
  rw [carry]
  split
  · exact ⟨by norm_num, by dsimp only; omega, .inl le_rfl⟩
  · next hne => exact ⟨lt_of_le_of_ne hk hne, ht, hnormal⟩

theorem NearestEven.bounds (h : NearestEven y k) : k - 1 / 2 ≤ y ∧ y ≤ k + 1 / 2 := by
  rcases h with ⟨hlow, hhigh⟩ | ⟨-, hlow, hhigh⟩
  · exact ⟨hlow.le, hhigh.le⟩
  · exact ⟨hlow, hhigh⟩

/-- What is rounded is covered by the result. Just below a power of two the interval is narrower,
but what has less bits than the significand is not rounded there. -/
theorem carry_covers (h : NearestEven (x / 2 ^ t) k) (hx : 0 ≤ x) (hlt : x / 2 ^ t < 2 ^ 53)
    (hnormal : 2 ^ 52 ≤ x / 2 ^ t ∨ t = Binary64.minExponent) :
    (carry negative k t).Covers x := by
  obtain ⟨hlow, hhigh⟩ := h.bounds
  by_cases hk : k = 2 ^ 53
  · -- one bit more, so the result is a power of two
    have hhalf : x / 2 ^ (t + 1) = x / 2 ^ t / 2 := by
      rw [zpow_add_one₀ (by norm_num), div_div]
    have hlow : (2 ^ 53 - 1 / 2 : ℚ) ≤ x / 2 ^ t := by
      rw [hk] at hlow
      exact_mod_cast hlow
    rw [carry, if_pos hk]
    refine Binary64.covers_of_even (by norm_num) hx ?_ ?_ fun _ _ => ?_ <;> push_cast <;>
      rw [hhalf] <;>
      linarith
  · rw [carry, if_neg hk]
    rcases Nat.mod_two_eq_zero_or_one k with heven | hodd
    · refine Binary64.covers_of_even heven hx hlow hhigh fun hs hexp => ?_
      have hle := hnormal.resolve_right (ne_of_gt hexp)
      have hs : (k : ℚ) = 2 ^ 52 := by exact_mod_cast hs
      dsimp only
      rw [hs]
      linarith
    · rcases h with ⟨hlow, hhigh⟩ | ⟨heven, -⟩
      · exact Binary64.covers_of_odd hodd hlow hhigh
      · omega

/-- The exponent that a number is rounded at. -/
def target (m : Nat) (e : Int) : Int := max (totalExponent m e - 53) Binary64.minExponent

/-- The bits that are left at the target exponent. -/
theorem Represents.shiftToTargetExponent
    (h : Represents (ExtendedMantissa.ofMantissaAndAccuracy m acc) y) (he : e ≤ target m e) :
    ∃ em, shiftToTargetExponent Format.binary64 m e acc = (em, target m e) ∧
      Represents em (y * 2 ^ e / 2 ^ target m e) := by
  have htarget : Format.binary64.targetExponent (totalExponent m e) = target m e :=
    targetExponent_eq _
  have hexp : e + ((target m e - e).toNat : Int) = target m e := by omega
  have hpow : (2 : ℚ) ^ target m e = 2 ^ e * 2 ^ (target m e - e).toNat := by
    rw [← zpow_natCast, ← zpow_add₀ (by norm_num), hexp]
  have hpos : (2 : ℚ) ^ e ≠ 0 := by positivity
  refine ⟨ExtendedMantissa.ofMantissaAndAccuracy m acc >>> (target m e - e).toNat, ?_, ?_⟩
  · simp only [Float.Model.UnpackedFloat.shiftToTargetExponent, shiftToExponent, htarget, hexp]
  · rw [hpow, mul_comm y, mul_div_mul_left _ _ hpos]
    exact h.shiftRight _

/-- At the target exponent 53 bits are left, or less at the least exponent. -/
theorem Represents.target_bounds
    (h : Represents (ExtendedMantissa.ofMantissaAndAccuracy m acc) y) (he : e ≤ target m e) :
    y * 2 ^ e / 2 ^ target m e < 2 ^ 53 ∧
      (2 ^ 52 ≤ y * 2 ^ e / 2 ^ target m e ∨ target m e = Binary64.minExponent) := by
  obtain ⟨hlow, hhigh⟩ := h.bounds
  rw [mantissa_ofMantissaAndAccuracy] at hlow hhigh
  have hpos : (0 : ℚ) < 2 ^ e := by positivity
  constructor
  · have hm : (m : ℚ) + 1 ≤ 2 ^ (m.log2 + 1) := by exact_mod_cast Nat.lt_log2_self
    have hexp : (2 : ℚ) ^ (m.log2 + 1) * 2 ^ e ≤ 2 ^ 53 * 2 ^ target m e := by
      rw [← zpow_natCast, ← zpow_natCast, ← zpow_add₀ (by norm_num), ← zpow_add₀ (by norm_num)]
      refine zpow_le_zpow_right₀ (by norm_num) ?_
      rw [target, totalExponent]
      push_cast
      omega
    rw [div_lt_iff₀ (by positivity)]
    nlinarith
  · refine or_iff_not_imp_right.mpr fun hmin => ?_
    have htarget : target m e = m.log2 + 1 + e - 53 := by
      rw [target, totalExponent] at hmin ⊢
      omega
    have hne : m ≠ 0 := by
      rintro rfl
      rw [Nat.log2_zero] at htarget
      omega
    have hm : (2 : ℚ) ^ m.log2 ≤ m := by exact_mod_cast Nat.log2_self_le hne
    have hexp : (2 : ℚ) ^ 52 * 2 ^ target m e = 2 ^ m.log2 * 2 ^ e := by
      rw [← zpow_natCast, ← zpow_natCast, ← zpow_add₀ (by norm_num), ← zpow_add₀ (by norm_num),
        htarget]
      congr 1
      push_cast
      ring
    rw [le_div_iff₀ (by positivity), hexp]
    nlinarith

/-- The second shift takes back a bit that rounding has added. -/
theorem shiftToTargetExponent_carry (hk : k ≤ 2 ^ 53) (ht : Binary64.minExponent ≤ t)
    (negative : Bool) : ∃ em, shiftToTargetExponent Format.binary64 k t .exact =
      (em, (carry negative k t).exponent) ∧ em.mantissa = (carry negative k t).significand := by
  obtain ⟨em, t', hshift⟩ : ∃ em t', shiftToTargetExponent Format.binary64 k t .exact = (em, t') :=
    ⟨_, _, rfl⟩
  obtain ⟨shift, hcut, hexp, htarget⟩ := shiftToTargetExponent_eq hshift
  have hmin : Binary64.minExponent = -1074 := rfl
  refine ⟨em, ?_⟩
  rw [hshift]
  by_cases hpower : k = 2 ^ 53
  · have hlog : k.log2 = 53 := by rw [hpower, Nat.log2_two_pow]
    have hone : shift = 1 := by
      rw [totalExponent, hlog] at htarget
      omega
    rw [carry, if_pos hpower, hcut, hone, hexp, hone, hpower]
    exact ⟨rfl, by norm_num⟩
  · have hlog : k.log2 ≤ 52 := by
      by_cases hzero : k = 0
      · rw [hzero, Nat.log2_zero]
        omega
      · exact Nat.le_of_lt_succ ((Nat.log2_lt hzero).mpr (lt_of_le_of_ne hk hpower))
    have hnone : shift = 0 := by
      rw [totalExponent] at htarget
      omega
    rw [carry, if_neg hpower, hcut, hnone, hexp, hnone]
    exact ⟨by simp, Nat.div_one k⟩

/-- **What is rounded is covered by the result.** -/
theorem Represents.roundWithAccuracy
    (h : Represents (ExtendedMantissa.ofMantissaAndAccuracy m acc) y) (he : e ≤ target m e)
    (negative : Bool) : ∃ b : Binary64, b.Canonical ∧ b.negative = negative ∧ b.Covers (y * 2 ^ e) ∧
      roundWithAccuracy Format.binary64 (sign negative) m e acc = b.unpacked := by
  obtain ⟨first, hfirst, hbits⟩ := h.shiftToTargetExponent he
  obtain ⟨hlt, hnormal⟩ := h.target_bounds he
  have hy : 0 ≤ y := (Nat.cast_nonneg _).trans h.bounds.1
  have hmin : Binary64.minExponent ≤ target m e := le_max_right _ _
  have hnearest := hbits.nearestEven
  obtain ⟨hlow, hhigh⟩ := hnearest.bounds
  have hk : first.roundedMantissa ≤ 2 ^ 53 := by
    have : (first.roundedMantissa : ℚ) < 2 ^ 53 + 1 := by linarith
    exact Nat.le_of_lt_succ (by exact_mod_cast this)
  have hbit : 2 ^ 52 ≤ first.roundedMantissa ∨ target m e = Binary64.minExponent := by
    refine hnormal.imp_left fun hle => ?_
    have : (2 : ℚ) ^ 52 < first.roundedMantissa + 1 := by linarith
    exact Nat.le_of_lt_succ (by exact_mod_cast this)
  obtain ⟨last, hlast, hmantissa⟩ := shiftToTargetExponent_carry hk hmin negative
  refine ⟨carry negative first.roundedMantissa (target m e), carry_canonical hk hmin hbit, ?_,
    carry_covers hnearest (by positivity) hlt hnormal, ?_⟩
  · rw [carry]
    split <;> rfl
  · have hsign : (carry negative first.roundedMantissa (target m e)).negative = negative := by
      rw [carry]
      split <;> rfl
    simp only [Float.Model.UnpackedFloat.roundWithAccuracy, hfirst, hlast, hmantissa,
      Binary64.unpacked, hsign]

/-! ## Operations -/

theorem represents_exact (m : Nat) :
    Represents (ExtendedMantissa.ofMantissaAndAccuracy m .exact) m := by
  simp [Represents, leadingValue, ExtendedMantissa.ofMantissaAndAccuracy]

/-- The remainder of a division tells the bits behind the quotient. -/
theorem represents_div (n : Nat) {d : Nat} (hd : 0 < d) :
    Represents (ExtendedMantissa.ofMantissaAndAccuracy (n / d) (accuracyOfFraction (n % d) d))
      (n / d) := by
  have hd' : (0 : ℚ) < d := Nat.cast_pos.mpr hd
  have hmod : (n % d : ℕ) < (d : ℚ) := Nat.cast_lt.mpr (Nat.mod_lt n hd)
  have hn : (n : ℚ) / d = (n / d : ℕ) + (n % d : ℕ) / d := by
    have hdiv : (n : ℚ) = (n / d : ℕ) * d + (n % d : ℕ) := by
      exact_mod_cast (Nat.div_add_mod' n d).symm
    rw [div_eq_iff hd'.ne', add_mul, div_mul_cancel₀ _ hd'.ne', ← hdiv]
  rw [hn, accuracyOfFraction]
  generalize n / d = q
  generalize n % d = r at hmod
  split
  · next hr => simpa [hr] using represents_exact q
  · next hr =>
    have hpos : (0 : ℚ) < r / d := div_pos (Nat.cast_pos.mpr (Nat.pos_of_ne_zero hr)) hd'
    have hone : (r : ℚ) / d < 1 := (div_lt_one hd').mpr hmod
    cases hcompare : compare (2 * r) d with
    | lt =>
      have hlt : (2 * r : ℚ) < d := by exact_mod_cast Nat.compare_eq_lt.mp hcompare
      have hhalf : (r : ℚ) / d < 1 / 2 := by
        rw [div_lt_div_iff₀ hd' (by norm_num)]
        linarith
      simp [Represents, leadingValue, ExtendedMantissa.ofMantissaAndAccuracy]
      constructor <;> linarith
    | eq =>
      have heq : (2 * r : ℚ) = d := by exact_mod_cast Nat.compare_eq_eq.mp hcompare
      have hhalf : (r : ℚ) / d = 1 / 2 := by
        rw [div_eq_div_iff hd'.ne' (by norm_num)]
        linarith
      simp [Represents, leadingValue, ExtendedMantissa.ofMantissaAndAccuracy]
      linarith
    | gt =>
      have hlt : (d : ℚ) < 2 * r := by exact_mod_cast Nat.compare_eq_gt.mp hcompare
      have hhalf : 1 / 2 < (r : ℚ) / d := by
        rw [div_lt_div_iff₀ (by norm_num) hd']
        linarith
      simp [Represents, leadingValue, ExtendedMantissa.ofMantissaAndAccuracy]
      constructor <;> linarith

/-- Whether a result of arithmetic is a rational with a sign, correctly rounded. -/
def Rounds (u : UnpackedFloat) (negative : Bool) (x : ℚ) : Prop :=
  ∃ b : Binary64, b.Canonical ∧ b.negative = negative ∧ b.Covers x ∧ u = b.unpacked

theorem rounds_zero (negative : Bool) : Rounds (.zero (sign negative)) negative 0 := by
  refine ⟨⟨negative, 0, Binary64.minExponent⟩, ⟨by norm_num, le_rfl, .inr rfl⟩, rfl, ?_, rfl⟩
  exact Binary64.covers_of_even rfl le_rfl (by norm_num) (by norm_num) nofun

theorem sign_mul (a b : Bool) : sign a * sign b = sign (a ^^ b) := by
  cases a <;> cases b <;> rfl

theorem sign_div (a b : Bool) : sign a / sign b = sign (a ^^ b) := by
  cases a <;> cases b <;> rfl

variable {a b : Binary64}

theorem Binary64.unpacked_of_eq_zero (hb : b.significand = 0) :
    b.unpacked = .zero (sign b.negative) := dif_pos hb

theorem Binary64.unpacked_of_ne_zero (hb : b.significand ≠ 0) : b.unpacked =
    .finite (sign b.negative) b.significand b.exponent (Nat.pos_of_ne_zero hb) := dif_neg hb

theorem Binary64.abs_of_eq_zero (hb : b.significand = 0) : b.abs = 0 := by
  rw [abs, hb, Nat.cast_zero, zero_mul]

/-- A product has bits enough, unless its exponent is too low anyway. -/
theorem le_target_mul (ha : a.Canonical) (hb : b.Canonical) (ha' : a.significand ≠ 0)
    (hb' : b.significand ≠ 0) :
    a.exponent + b.exponent ≤ target (a.significand * b.significand) (a.exponent + b.exponent) := by
  rw [target, totalExponent]
  have hmin : Binary64.minExponent = -1074 := rfl
  have hbits (h : 2 ^ 52 ≤ a.significand * b.significand) :
      52 ≤ (a.significand * b.significand).log2 :=
    (Nat.le_log2 (Nat.mul_ne_zero ha' hb')).mpr h
  rcases ha.normal with hnormal | hexp
  · have := hbits (hnormal.trans (Nat.le_mul_of_pos_right _ (Nat.pos_of_ne_zero hb')))
    omega
  · rcases hb.normal with hnormal | hexp'
    · have := hbits (hnormal.trans (Nat.le_mul_of_pos_left _ (Nat.pos_of_ne_zero ha')))
      omega
    · omega

theorem rounds_mul (ha : a.Canonical) (hb : b.Canonical) :
    Rounds (mul Format.binary64 a.unpacked b.unpacked) (a.negative ^^ b.negative)
      (a.abs * b.abs) := by
  have hzero := rounds_zero (a.negative ^^ b.negative)
  rw [← sign_mul] at hzero
  by_cases ha' : a.significand = 0
  · rw [Binary64.abs_of_eq_zero ha', zero_mul, Binary64.unpacked_of_eq_zero ha']
    by_cases hb' : b.significand = 0
    · rwa [Binary64.unpacked_of_eq_zero hb']
    · rwa [Binary64.unpacked_of_ne_zero hb']
  · by_cases hb' : b.significand = 0
    · rw [Binary64.abs_of_eq_zero hb', mul_zero, Binary64.unpacked_of_eq_zero hb',
        Binary64.unpacked_of_ne_zero ha']
      exact hzero
    · obtain ⟨c, hc, hsign, hcovers, hround⟩ :=
        (represents_exact (a.significand * b.significand)).roundWithAccuracy
          (le_target_mul ha hb ha' hb') (a.negative ^^ b.negative)
      refine ⟨c, hc, hsign, ?_, ?_⟩
      · rwa [Nat.cast_mul, zpow_add₀ (by norm_num), mul_mul_mul_comm] at hcovers
      · rw [Binary64.unpacked_of_ne_zero ha', Binary64.unpacked_of_ne_zero hb', mul, sign_mul,
          hround]

theorem log2_le_log2_div (hn : m ≠ 0) (hk : k ≠ 0) :
    m.log2 ≤ (m / k).log2 + k.log2 + 1 := by
  have hm : 2 ^ m.log2 < 2 ^ ((m / k).log2 + k.log2 + 2) := calc
    2 ^ m.log2 ≤ m := Nat.log2_self_le hn
    _ < (m / k + 1) * k := by
      rw [Nat.add_mul, Nat.one_mul]
      exact Nat.lt_div_mul_add (Nat.pos_of_ne_zero hk)
    _ ≤ 2 ^ ((m / k).log2 + 1) * 2 ^ (k.log2 + 1) :=
      Nat.mul_le_mul Nat.lt_log2_self Nat.lt_log2_self.le
    _ = 2 ^ ((m / k).log2 + k.log2 + 2) := by
      rw [← Nat.pow_add]
      congr 1
      omega
  have := (Nat.pow_lt_pow_iff_right Nat.one_lt_two).mp hm
  omega

/-- A quotient has bits enough, as the dividend is shifted before. -/
theorem le_target_div {m₁ m₂ : Nat} {e₁ e₂ T : Int} (h₁ : m₁ ≠ 0) (h₂ : m₂ ≠ 0)
    (hT : T = min (e₁ - e₂)
      (max (totalExponent m₁ e₁ - totalExponent m₂ e₂ - 53) Binary64.minExponent)) :
    T ≤ target ((m₁ <<< (e₁ - e₂ - T).toNat) / m₂) T := by
  have hlog : (m₁ <<< (e₁ - e₂ - T).toNat).log2 = m₁.log2 + (e₁ - e₂ - T).toNat :=
    log2_shiftLeft h₁
  have hmin : Binary64.minExponent = -1074 := rfl
  have hne : m₁ <<< (e₁ - e₂ - T).toNat ≠ 0 := by
    rw [Nat.shiftLeft_eq]
    exact Nat.mul_ne_zero h₁ (Nat.two_pow_pos _).ne'
  rw [target]
  rw [totalExponent, totalExponent] at hT
  rw [totalExponent]
  have := log2_le_log2_div hne h₂
  omega

theorem rounds_div (hb' : b.significand ≠ 0) :
    Rounds (div Format.binary64 a.unpacked b.unpacked) (a.negative ^^ b.negative)
      (a.abs / b.abs) := by
  rw [Binary64.unpacked_of_ne_zero hb']
  by_cases ha' : a.significand = 0
  · have hzero := rounds_zero (a.negative ^^ b.negative)
    rw [← sign_div] at hzero
    rwa [Binary64.abs_of_eq_zero ha', zero_div, Binary64.unpacked_of_eq_zero ha']
  · rw [Binary64.unpacked_of_ne_zero ha']
    simp only [div, divCore, targetExponent_eq]
    generalize hT : min (a.exponent - b.exponent) (max (totalExponent a.significand a.exponent -
      totalExponent b.significand b.exponent - 53) (-1074)) = T
    obtain ⟨c, hc, hsign, hcovers, hround⟩ := (represents_div
      (a.significand <<< (a.exponent - b.exponent - T).toNat)
      (Nat.pos_of_ne_zero hb')).roundWithAccuracy
        (le_target_div ha' hb' hT.symm) (a.negative ^^ b.negative)
    refine ⟨c, hc, hsign, ?_, by rw [sign_div, hround]⟩
    have hexp : (2 : ℚ) ^ (a.exponent - b.exponent - T).toNat * 2 ^ T =
        2 ^ a.exponent / 2 ^ b.exponent := by
      rw [← zpow_natCast, ← zpow_add₀ (by norm_num), ← zpow_sub₀ (by norm_num)]
      congr 1
      omega
    rwa [Nat.shiftLeft_eq, Nat.cast_mul, Nat.cast_pow, Nat.cast_two, div_mul_eq_mul_div, mul_assoc,
      hexp, ← mul_div_assoc, div_div, mul_comm (2 ^ b.exponent)] at hcovers

theorem rounds_ofNat (n : Nat) : Rounds (ofNat Format.binary64 n) false n := by
  unfold ofNat ofInt UnpackedFloat.normalize
  split
  · next h => exact absurd (Int.compare_eq_lt.mp h) (by omega)
  · next h =>
    have hzero : n = 0 := by exact_mod_cast Int.compare_eq_eq.mp h
    rw [hzero, Nat.cast_zero]
    exact rounds_zero false
  · next h =>
    have hn : n ≠ 0 := by
      have := Int.compare_eq_gt.mp h
      omega
    simp only [UnpackedFloat.round, decreaseExponent, Int.toNat_natCast, targetExponent_eq]
    generalize hk : (0 - max (totalExponent n 0 - 53) (-1074)).toNat = k
    have htarget : 0 - (k : Int) ≤ target (n <<< k) (0 - k) := by
      have hmin : Binary64.minExponent = -1074 := rfl
      rw [totalExponent] at hk
      rw [target, totalExponent, log2_shiftLeft hn]
      omega
    obtain ⟨c, hc, hsign, hcovers, hround⟩ :=
      (represents_exact (n <<< k)).roundWithAccuracy htarget false
    refine ⟨c, hc, hsign, ?_, hround⟩
    rwa [Nat.shiftLeft_eq, Nat.cast_mul, Nat.cast_pow, Nat.cast_two, mul_assoc, ← zpow_natCast,
      ← zpow_add₀ (by norm_num), add_sub_cancel, zpow_zero, mul_one] at hcovers

end Remap.Decimal
