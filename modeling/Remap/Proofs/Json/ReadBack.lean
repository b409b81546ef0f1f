import Mathlib
import Remap.Proofs.Decimal.Doubles
import Remap.Proofs.Decimal.Nearest
import Remap.Proofs.Json.Finite
import Remap.Proofs.Json.RoundTrip
import Remap.Proofs.Json.Significand

/-!
# Numbers that are read back

The reader scales the digits of a number by a power of ten in double arithmetic, which rounds the
digits, the power and the result. It never takes the text of a finite double for a number that is
too great, and what it reads is no more than six units in the last place away. The double comes
back where only the result is rounded.
-/

namespace Remap.Json

open Decimal

variable {b c : Binary64} {f : Float} {k significand : Nat} {exponent : Int}

/-! ## Powers of ten -/

theorem ten_zpow_eq (hnonneg : 0 ≤ exponent) : (10 : ℚ) ^ exponent = 10 ^ exponent.toNat := by
  rw [← zpow_natCast, Int.toNat_of_nonneg hnonneg]

/-- Whether a double is a power of ten, correctly rounded, and exact if it has at most 53 bits. -/
structure IsPower (k : Nat) (p : Binary64) : Prop where
  parts : Binary64.ofFloat? (powerOfTen k) = some p
  positive : p.negative = false
  covers : p.Covers (10 ^ k)
  exact : k ≤ 22 → p.abs = 10 ^ k

theorem exists_isPower (hk : k ≤ 308) : ∃ p, IsPower k p := by
  have hall : ∀ k ∈ List.range 309, (Binary64.ofFloat? (powerOfTen k)).any fun p =>
      decide (p.negative = false) && (p.interval.scale (2 ^ p.exponent.toNat)).contains
        (4 * 10 ^ k * 2 ^ (-p.exponent).toNat) &&
      decide (k ≤ 22 → p.significand * 2 ^ p.exponent.toNat =
        10 ^ k * 2 ^ (-p.exponent).toNat) := by
    decide +kernel
  obtain ⟨p, hp, h⟩ := (Option.any_eq_true ..).mp (hall k (List.mem_range.mpr (by omega)))
  simp only [Bool.and_eq_true, decide_eq_true_eq] at h
  obtain ⟨⟨hsign, hcontains⟩, hexact⟩ := h
  have htwo := Binary64.pow_toNat 2 (by norm_num) p.exponent
  have hpos : (2 : ℚ) ^ (-p.exponent).toNat ≠ 0 := by positivity
  refine ⟨p, hp, hsign, ?_, fun hsmall => ?_⟩
  · have hholds := Binary64.Interval.holds_of_contains_scale (Nat.two_pow_pos _) hcontains
    push_cast at hholds
    rwa [htwo, mul_div_mul_right _ _ hpos, mul_div_assoc] at hholds
  · have hexact : (p.significand * 2 ^ p.exponent.toNat : ℚ) =
        10 ^ k * 2 ^ (-p.exponent).toNat := by exact_mod_cast hexact hsmall
    rw [htwo, ← mul_assoc] at hexact
    exact mul_right_cancel₀ hpos hexact

namespace IsPower

variable {p : Binary64}

theorem canonical (h : IsPower k p) : p.Canonical := (Binary64.unpack_of_ofFloat? h.parts).2.1

theorem one_le (k : Nat) : (1 : ℚ) ≤ 10 ^ k := one_le_pow₀ (by norm_num)

theorem min_lt (h : IsPower k p) : Binary64.minExponent < p.exponent :=
  h.covers.min_lt h.canonical (one_le k)

theorem ne_zero (h : IsPower k p) : p.significand ≠ 0 :=
  h.covers.significand_ne_zero h.canonical (one_le k)

theorem near (h : IsPower k p) : Near 1 p.abs (10 ^ k) := h.covers.near h.canonical h.min_lt

theorem one_le_abs (h : IsPower k p) (hk : k ≠ 0) : 1 ≤ p.abs := by
  have hten : (10 : ℚ) ≤ 10 ^ k := le_self_pow₀ (by norm_num) hk
  have hlow := h.near.2
  rw [roundoff, pow_one] at hlow
  norm_num at hlow
  linarith

end IsPower

/-- A significand is rounded to a double. -/
theorem exists_isRounding_significand (hfits : significand ≤ maxSignificand) :
    ∃ c : Binary64, c.IsRounding (UInt64.ofNat significand).toFloat false significand ∧
      Binary64.ofFloat? (UInt64.ofNat significand).toFloat = some c := by
  have hlt : significand < 2 ^ 64 := Nat.lt_of_le_pred (Nat.two_pow_pos 64) hfits
  have h := Binary64.exists_isRounding_toFloat (UInt64.ofNat significand)
  rwa [UInt64.toNat_ofNat', Nat.mod_eq_of_lt hlt] at h

/-! ## Steps -/

theorem scale?_nonneg {fuel : Nat} (hlow : 0 ≤ exponent) (hhigh : exponent ≤ 308)
    (hf : Binary64.ofFloat? (f * powerOfTen exponent.toNat) = some b) :
    scale? (fuel + 1) f exponent = some (f * powerOfTen exponent.toNat) := by
  have hinf : (f * powerOfTen exponent.toNat).isInf = false := Binary64.isInf_of_ofFloat? hf
  rw [scale?, if_pos (by omega), if_pos hlow]
  simp only [hinf, Bool.false_eq_true, if_false]

theorem scale?_neg {fuel : Nat} (hlow : -308 ≤ exponent) (hhigh : exponent < 0) :
    scale? (fuel + 1) f exponent = some (f / powerOfTen exponent.natAbs) := by
  rw [scale?, if_pos (by omega), if_neg (by omega)]

theorem scale?_low {fuel : Nat} (hlow : exponent < -308) (hf : Binary64.ofFloat? f = some b)
    (hb : b.significand ≠ 0) :
    scale? (fuel + 1) f exponent = scale? fuel (f / powerOfTen 308) (exponent + 308) := by
  rw [scale?, if_neg (by omega), Binary64.beq_zero_of_ofFloat? hf hb, if_neg Bool.false_ne_true,
    if_neg (by omega)]

/-- Nothing is too great that is divided only. -/
theorem isSome_scale?_of_neg {fuel : Nat} (hneg : exponent < 0) :
    (scale? fuel f exponent).isSome = true := by
  induction fuel generalizing f exponent with
  | zero => rfl
  | succ fuel ih =>
    rw [scale?]
    split
    · rw [if_neg (by omega)]
      rfl
    · next hlarge =>
      split
      · rfl
      · rw [if_neg (by omega)]
        exact ih (by omega)

/-! ## The range of doubles -/

/-- The bound of what is covered below the three greatest doubles. -/
theorem high_le (hb : b.Canonical) (hexp : b.exponent ≤ Binary64.maxExponent)
    (hsmall : b.exponent = Binary64.maxExponent → b.significand + 4 ≤ 2 ^ 53) :
    (4 * b.significand + 2) * (2 : ℚ) ^ b.exponent ≤ (2 ^ 56 - 28) * 2 ^ (970 : ℤ) := by
  have hmax : Binary64.maxExponent = 971 := rfl
  rcases hexp.eq_or_lt with heq | hlt
  · have hsignificand : (b.significand : ℚ) + 4 ≤ 2 ^ 53 := by exact_mod_cast hsmall heq
    rw [heq, hmax, show (971 : ℤ) = 970 + 1 by norm_num, zpow_add_one₀ (by norm_num)]
    have hunit : (0 : ℚ) < 2 ^ (970 : ℤ) := by positivity
    generalize (2 : ℚ) ^ (970 : ℤ) = unit at hunit ⊢
    have := mul_le_mul_of_nonneg_right hsignificand hunit.le
    linarith
  · have hsignificand : (b.significand : ℚ) + 1 ≤ 2 ^ 53 := by exact_mod_cast hb.significand_lt
    have hpow : (2 : ℚ) ^ b.exponent ≤ 2 ^ (970 : ℤ) :=
      zpow_le_zpow_right₀ (by norm_num) (by omega)
    exact mul_le_mul (by linarith) hpow (by positivity) (by norm_num)

theorem exponent_le_of_covers (hb : b.Canonical) (hexp : b.exponent ≤ Binary64.maxExponent)
    (hpos : 0 < significand) (hcovers : b.Covers (significand * 10 ^ exponent)) :
    exponent ≤ 308 := by
  by_contra hlarge
  have hpow : (10 : ℚ) ^ (309 : ℤ) ≤ 10 ^ exponent :=
    zpow_le_zpow_right₀ (by norm_num) (by omega)
  have hnumbers : (2 : ℚ) ^ (1024 : ℤ) < 10 ^ (309 : ℤ) := by
    exact_mod_cast (show 2 ^ 1024 < 10 ^ 309 by decide +kernel)
  have hlow : (10 : ℚ) ^ exponent ≤ significand * 10 ^ exponent :=
    le_mul_of_one_le_left (by positivity) (by exact_mod_cast hpos)
  exact absurd (hcovers.lt_two_zpow hb hexp)
    (not_lt.mpr (hnumbers.le.trans (hpow.trans hlow)))

/-- Below the three greatest doubles, three roundings stay within the range of doubles. -/
theorem isSome_scale?_of_covers (hb : b.Canonical) (hexp : b.exponent ≤ Binary64.maxExponent)
    (hpos : 0 < significand) (hfits : significand ≤ maxSignificand)
    (hcovers : b.Covers (significand * 10 ^ exponent))
    (hsmall : b.exponent = Binary64.maxExponent → b.significand + 4 ≤ 2 ^ 53) :
    (scale? 5 (UInt64.ofNat significand).toFloat exponent).isSome = true := by
  by_cases hneg : exponent < 0
  · exact isSome_scale?_of_neg hneg
  have hexponent := exponent_le_of_covers hb hexp hpos hcovers
  obtain ⟨c, hc, hfloat⟩ := exists_isRounding_significand hfits
  obtain ⟨p, hp⟩ := exists_isPower (k := exponent.toNat) (by omega)
  obtain ⟨r, hr⟩ := Binary64.exists_isRounding_mul hfloat hp.parts
  have hpower := ten_zpow_eq (not_lt.mp hneg)
  -- the digits and the power are rounded up by a factor of at most `1 + 2 ^ -53` each
  have hdigits := hc.covers.abs_mul_le hc.canonical
    (hc.covers.min_lt hc.canonical (by exact_mod_cast hpos))
  have hrounded : c.abs * 2 ^ 53 * (p.abs * 2 ^ 53) ≤
      significand * (2 ^ 53 + 1) * (10 ^ exponent.toNat * (2 ^ 53 + 1)) :=
    mul_le_mul hdigits (hp.covers.abs_mul_le hp.canonical hp.min_lt)
      (mul_nonneg p.abs_nonneg (by norm_num)) (by positivity)
  have hdecimal : 4 * (significand * 10 ^ exponent.toNat) ≤
      (2 ^ 56 - 28) * (2 : ℚ) ^ (970 : ℤ) := by
    rw [← hpower]
    exact hcovers.le_high_mul.trans (high_le hb hexp hsmall)
  have hbound : c.abs * p.abs < (2 ^ 54 - 1) * 2 ^ (970 : ℤ) := by
    have hunit : (0 : ℚ) < 2 ^ (970 : ℤ) := by positivity
    generalize (2 : ℚ) ^ (970 : ℤ) = unit at hdecimal hunit ⊢
    linarith
  rw [scale?_nonneg (by omega) hexponent
    (hr.parts (hr.covers.exponent_le_max hr.canonical hbound))]
  rfl

/-! ## Exact steps -/

/-- If only the result is rounded, it is the double that covers the decimal. -/
theorem eq_of_exact {x y : Float} {r : Binary64} (hb : b.Canonical)
    (hcovers : b.Covers (significand * 10 ^ exponent)) (hc : c.IsRounding x false significand)
    (hr : r.IsRounding y false (c.abs * 10 ^ exponent))
    (hexact : exponent = 0 ∨ significand < 2 ^ 53) : r = ⟨false, b.significand, b.exponent⟩ := by
  have hrounded := hr.covers
  rcases hexact with hzero | hlt
  · rw [hzero, zpow_zero, mul_one] at hrounded hcovers
    obtain ⟨hs, he⟩ := hrounded.unique hr.canonical hc.canonical c.covers_abs
    obtain ⟨hs', he'⟩ := hc.covers.unique hc.canonical hb hcovers
    exact Binary64.ext hr.negative_eq (hs.trans hs') (he.trans he')
  · rw [hc.covers.abs_eq hc.canonical hlt] at hrounded
    obtain ⟨hs, he⟩ := hrounded.unique hr.canonical hb hcovers
    exact Binary64.ext hr.negative_eq hs he

theorem scale?_eq_of_exact (hb : b.Canonical) (hexp : b.exponent ≤ Binary64.maxExponent)
    (hfits : significand ≤ maxSignificand) (hcovers : b.Covers (significand * 10 ^ exponent))
    (hexact : exponent = 0 ∨ (significand < 2 ^ 53 ∧ exponent.natAbs ≤ 22)) :
    ∃ f, scale? 5 (UInt64.ofNat significand).toFloat exponent = some f ∧
      Binary64.ofFloat? f = some ⟨false, b.significand, b.exponent⟩ := by
  obtain ⟨c, hc, hfloat⟩ := exists_isRounding_significand hfits
  obtain ⟨p, hp⟩ := exists_isPower (k := exponent.natAbs) (by omega)
  have hpabs := hp.exact (by omega)
  have hexact := hexact.imp_right And.left
  rcases lt_or_ge exponent 0 with hneg | hnonneg
  · obtain ⟨r, hr⟩ := Binary64.exists_isRounding_div hfloat hp.parts hp.ne_zero
    have hpower : c.abs / p.abs = c.abs * 10 ^ exponent := by
      rw [hpabs, div_eq_mul_inv, ← zpow_natCast, ← zpow_neg]
      congr 2
      omega
    rw [hc.negative_eq, hp.positive, hpower] at hr
    obtain rfl := eq_of_exact hb hcovers hc hr hexact
    exact ⟨_, scale?_neg (by omega) hneg, hr.parts hexp⟩
  · have hnat : exponent.natAbs = exponent.toNat := by omega
    obtain ⟨r, hr⟩ := Binary64.exists_isRounding_mul hfloat hp.parts
    have hpower : c.abs * p.abs = c.abs * 10 ^ exponent := by
      rw [hpabs, ← zpow_natCast]
      congr 2
      omega
    rw [hc.negative_eq, hp.positive, hpower, hnat] at hr
    obtain rfl := eq_of_exact hb hcovers hc hr hexact
    exact ⟨_, scale?_nonneg hnonneg (by omega) (hr.parts hexp), hr.parts hexp⟩

/-! ## The distance of the result -/

/-- What is a few roundings away from a decimal is close to it, in units of the double. -/
theorem close_of_near {x y : ℚ} (hb : b.Canonical) (hcovers : b.Covers y) (h : Near k x y)
    (hk : k ≤ 4) : |x - y| ≤ (k + 1 / 4) * 2 ^ b.exponent := by
  have hsignificand : (b.significand : ℚ) + 1 ≤ 2 ^ 53 := by exact_mod_cast hb.significand_lt
  have hpos : (0 : ℚ) < 2 ^ b.exponent := by positivity
  have hunits := mul_le_mul_of_nonneg_right hsignificand hpos.le
  have hhigh : y ≤ 2 ^ 53 * 2 ^ b.exponent := by linarith [hcovers.le_high_mul]
  have hbound : (k + 1 / 4 : ℚ) * y ≤ (k + 1 / 4) * (2 ^ 53 * 2 ^ b.exponent) := by gcongr
  linarith [h.sub_le hk hcovers.nonneg]

section Distance

variable {p p' q : Binary64} {x : Float}

theorem near_significand (hpos : 0 < significand) (hc : c.IsRounding x false significand) :
    Near 1 c.abs significand :=
  hc.covers.near hc.canonical (hc.covers.min_lt hc.canonical (by exact_mod_cast hpos))

theorem close_product (hb : b.Canonical) (hcovers : b.Covers (significand * 10 ^ exponent))
    (hc : Near 1 c.abs significand) (hp : IsPower exponent.toNat p) (hnonneg : 0 ≤ exponent) :
    |c.abs * p.abs - significand * 10 ^ exponent| ≤ 9 / 2 * 2 ^ b.exponent := by
  have hnear : Near 2 (c.abs * p.abs) (significand * 10 ^ exponent) := by
    rw [ten_zpow_eq hnonneg]
    exact hc.mul hp.near c.abs_nonneg (Nat.cast_nonneg _) p.abs_nonneg (by positivity)
  refine (close_of_near hb hcovers hnear (by omega)).trans ?_
  gcongr
  norm_num

theorem div_pow_eq (significand : Nat) (hexponent : exponent = -k) :
    (significand / 10 ^ k : ℚ) = significand * 10 ^ exponent := by
  rw [hexponent, zpow_neg, zpow_natCast, div_eq_mul_inv]

theorem close_quotient (hb : b.Canonical) (hcovers : b.Covers (significand * 10 ^ exponent))
    (hc : Near 1 c.abs significand) (hp : IsPower k p) (hexponent : exponent = -k) :
    |c.abs / p.abs - significand * 10 ^ exponent| ≤ 9 / 2 * 2 ^ b.exponent := by
  have hnear : Near 2 (c.abs / p.abs) (significand * 10 ^ exponent) := by
    rw [← div_pow_eq significand hexponent]
    exact hc.div hp.near c.abs_nonneg (Nat.cast_nonneg _) (Binary64.abs_pos hp.ne_zero)
      (by positivity)
  refine (close_of_near hb hcovers hnear (by omega)).trans ?_
  gcongr
  norm_num

/-- Between two divisions, bits may be lost below the least exponent. -/
theorem close_quotients (hb : b.Canonical) (hcovers : b.Covers (significand * 10 ^ exponent))
    (hc : Near 1 c.abs significand) (hp : IsPower 308 p) (hp' : IsPower k p') (hk : k ≠ 0)
    (hexponent : exponent = -308 - k) (hq : q.IsRounding x false (c.abs / p.abs)) :
    |q.abs / p'.abs - significand * 10 ^ exponent| ≤ 9 / 2 * 2 ^ b.exponent := by
  have hpos : 0 < p'.abs := Binary64.abs_pos hp'.ne_zero
  have hfirst : Near 2 (c.abs / p.abs) (significand / 10 ^ 308) :=
    hc.div hp.near c.abs_nonneg (Nat.cast_nonneg _) (Binary64.abs_pos hp.ne_zero) (by positivity)
  have hdecimal : (significand / 10 ^ 308 / 10 ^ k : ℚ) = significand * 10 ^ exponent := by
    rw [div_div, ← pow_add]
    exact div_pow_eq significand (by push_cast; omega)
  have hquotient : 0 ≤ c.abs / p.abs := div_nonneg c.abs_nonneg p.abs_nonneg
  by_cases hmin : Binary64.minExponent < q.exponent
  · have hnear : Near 4 (q.abs / p'.abs) (significand * 10 ^ exponent) := by
      rw [← hdecimal]
      exact ((hq.covers.near hq.canonical hmin).trans hfirst).div hp'.near q.abs_nonneg
        (by positivity) hpos (by positivity)
    refine (close_of_near hb hcovers hnear le_rfl).trans ?_
    gcongr
    norm_num
  · -- half a unit at most is lost, and it is divided once more
    have hlost : |q.abs / p'.abs - c.abs / p.abs / p'.abs| ≤ 2 ^ b.exponent / 2 := by
      have hexp : q.exponent ≤ b.exponent := (not_lt.mp hmin).trans hb.exponent_ge
      rw [← sub_div, abs_div, abs_of_pos hpos]
      calc |q.abs - c.abs / p.abs| / p'.abs ≤ |q.abs - c.abs / p.abs| :=
            div_le_self (abs_nonneg _) (hp'.one_le_abs hk)
        _ ≤ 2 ^ q.exponent / 2 := hq.covers.sub_le
        _ ≤ 2 ^ b.exponent / 2 := by gcongr; norm_num
    have hnear : Near 3 (c.abs / p.abs / p'.abs) (significand * 10 ^ exponent) := by
      rw [← hdecimal]
      exact hfirst.div hp'.near hquotient (by positivity) hpos (by positivity)
    have hclose := close_of_near hb hcovers hnear (by omega)
    have hunit : (0 : ℚ) < 2 ^ b.exponent := by positivity
    norm_num at hclose
    linarith [abs_sub_le (q.abs / p'.abs) (c.abs / p.abs / p'.abs) (significand * 10 ^ exponent)]

/-- What the steps make is rounded from something close to the decimal. -/
theorem exists_close_of_scale? (hb : b.Canonical) (hpos : 0 < significand)
    (hfits : significand ≤ maxSignificand) (hcovers : b.Covers (significand * 10 ^ exponent))
    (hlow : -616 ≤ exponent) (hhigh : exponent ≤ 308)
    (hf : scale? 5 (UInt64.ofNat significand).toFloat exponent = some f) :
    ∃ (r : Binary64) (x : ℚ), r.IsRounding f false x ∧
      |x - significand * 10 ^ exponent| ≤ 9 / 2 * 2 ^ b.exponent := by
  obtain ⟨c, hc, hfloat⟩ := exists_isRounding_significand hfits
  have hnear := near_significand hpos hc
  rcases lt_or_ge exponent 0 with hneg | hnonneg
  · by_cases hone : -308 ≤ exponent
    · obtain ⟨p, hp⟩ := exists_isPower (k := exponent.natAbs) (by omega)
      obtain ⟨r, hr⟩ := Binary64.exists_isRounding_div hfloat hp.parts hp.ne_zero
      rw [hc.negative_eq, hp.positive] at hr
      obtain rfl := Option.some.inj ((scale?_neg hone hneg).symm.trans hf)
      exact ⟨r, _, hr, close_quotient hb hcovers hnear hp (by omega)⟩
    · have hne := hc.covers.significand_ne_zero hc.canonical (by exact_mod_cast hpos)
      rw [scale?_low (by omega) hfloat hne, scale?_neg (by omega) (by omega)] at hf
      obtain ⟨p, hp⟩ := exists_isPower (k := 308) le_rfl
      obtain ⟨p', hp'⟩ := exists_isPower (k := (exponent + 308).natAbs) (by omega)
      obtain ⟨q, hq⟩ := Binary64.exists_isRounding_div hfloat hp.parts hp.ne_zero
      have hquotient : ((UInt64.ofNat significand).toFloat / powerOfTen 308).isFinite = true :=
        (below_divide (below_toFloat _) (isAtLeastOne_powerOfTen le_rfl) (by omega)
          (by omega)).isFinite
      obtain ⟨r, hr⟩ :=
        Binary64.exists_isRounding_div (hq.parts (hq.le_max hquotient)) hp'.parts hp'.ne_zero
      rw [hc.negative_eq, hp.positive] at hq
      rw [hq.negative_eq, hp'.positive] at hr
      obtain rfl := Option.some.inj hf
      exact ⟨r, _, hr, close_quotients hb hcovers hnear hp hp' (by omega) (by omega) hq⟩
  · obtain ⟨p, hp⟩ := exists_isPower (k := exponent.toNat) (by omega)
    obtain ⟨r, hr⟩ := Binary64.exists_isRounding_mul hfloat hp.parts
    rw [hc.negative_eq, hp.positive] at hr
    rw [scale?, if_pos (by omega), if_pos hnonneg] at hf
    dsimp only at hf
    split at hf
    · cases hf
    · obtain rfl := Option.some.inj hf
      exact ⟨r, _, hr, close_product hb hcovers hnear hp hnonneg⟩

/-- Whatever is rounded on the way, the result is six units in the last place away at most. -/
theorem sub_le_of_scale? (hb : b.Canonical) (hexp : b.exponent ≤ Binary64.maxExponent)
    (hpos : 0 < significand) (hfits : significand ≤ maxSignificand)
    (hcovers : b.Covers (significand * 10 ^ exponent)) (hlow : -616 ≤ exponent)
    (hf : scale? 5 (UInt64.ofNat significand).toFloat exponent = some f) :
    ∃ r, Binary64.ofFloat? f = some r ∧ r.negative = false ∧
      |r.abs - b.abs| ≤ 6 * 2 ^ b.exponent := by
  have hfinite := isFinite_of_scale? (below_toFloat _) (by omega) (by omega) hf
  have hhigh := exponent_le_of_covers hb hexp hpos hcovers
  obtain ⟨r, x, hr, hclose⟩ := exists_close_of_scale? hb hpos hfits hcovers hlow hhigh hf
  exact ⟨r, hr.parts (hr.le_max hfinite), hr.negative_eq,
    hcovers.sub_le_of_close hb hr.canonical hr.covers hclose⟩

end Distance

/-! ## Reading back -/

/-- Whether nothing but the result is rounded when a decimal is read: there is nothing to scale, or
the digits and the power of ten are doubles. -/
def ScaledExactly (d : Digits) : Prop :=
  (reading d).2 = 0 ∨ ((reading d).1 < 2 ^ 53 ∧ (reading d).2.natAbs ≤ 22)

instance (d : Digits) : Decidable (ScaledExactly d) := inferInstanceAs (Decidable (_ ∨ _))

variable {n : Float}

theorem reading_covers (hzero : b.significand ≠ 0) (hlt : b.significand < 2 ^ 53) :
    0 < (reading (b.shortest .up)).1 ∧ (reading (b.shortest .up)).1 ≤ maxSignificand ∧
      b.Covers ((reading (b.shortest .up)).1 * 10 ^ (reading (b.shortest .up)).2) := by
  have hpos := Digits.value_pos (Binary64.shortest_coefficient .up hzero hlt)
  refine ⟨Nat.pos_of_ne_zero fun hread => ?_, ?_, ?_⟩
  · rw [← reading_value, hread, Nat.cast_zero, zero_mul] at hpos
    exact absurd hpos (lt_irrefl 0)
  · exact reading_le ((Binary64.shortest_coefficient_le .up hzero hlt).trans (by decide))
  · rw [reading_value]
    exact Binary64.covers_shortest .up hzero hlt

/-- The text of a finite double is never read as a number that is too great. -/
theorem exists_scaled? (hb : b.Canonical) (hexp : b.exponent ≤ Binary64.maxExponent)
    (hzero : b.significand ≠ 0) : ∃ f, scaled? (b.shortest .up) = some f := by
  rw [← Option.isSome_iff_exists]
  obtain ⟨hpos, hfits, hcovers⟩ := reading_covers hzero hb.significand_lt
  by_cases hgreat : b.exponent = Binary64.maxExponent ∧ 2 ^ 53 < b.significand + 4
  · -- the three greatest doubles
    have hall : ∀ negative : Bool, ∀ k < 3, (scaled? ((⟨negative, 2 ^ 53 - 3 + k,
        Binary64.maxExponent⟩ : Binary64).shortest .up)).isSome = true := by
      decide +kernel
    have hlt := hb.significand_lt
    have hgreatest := hall b.negative (b.significand + 3 - 2 ^ 53) (by omega)
    rwa [show 2 ^ 53 - 3 + (b.significand + 3 - 2 ^ 53) = b.significand by omega,
      ← hgreat.1] at hgreatest
  · exact isSome_scale?_of_covers hb hexp hpos hfits hcovers (by omega)

theorem ofFloat?_scaled? (hb : b.Canonical) (hexp : b.exponent ≤ Binary64.maxExponent)
    (hzero : b.significand ≠ 0) (hexact : ScaledExactly (b.shortest .up))
    (hf : scaled? (b.shortest .up) = some f) :
    Binary64.ofFloat? f = some ⟨false, b.significand, b.exponent⟩ := by
  obtain ⟨hpos, hfits, hcovers⟩ := reading_covers hzero hb.significand_lt
  obtain ⟨g, hg, hparts⟩ := scale?_eq_of_exact hb hexp hfits hcovers hexact
  rw [scaled?, hg] at hf
  rwa [← Option.some.inj hf]

theorem neg_le_reading (hb : b.Canonical) (hexp : b.exponent ≤ Binary64.maxExponent)
    (hzero : b.significand ≠ 0) : -616 ≤ (reading (b.shortest .up)).2 := by
  rw [reading]
  split
  · exact (by decide : (-616 : Int) ≤ 0).trans (Int.natCast_nonneg _)
  · have hleading := Binary64.natAbs_shortest_leading_le .up hzero hb hexp
    have hlow := Digits.pow_count_le (n := (b.shortest .up).coefficient) fun h =>
      Binary64.shortest_coefficient .up hzero hb.significand_lt (by rw [h])
    have hhigh := Binary64.shortest_coefficient_le .up hzero hb.significand_lt
    have hcount : Digits.count (b.shortest .up).coefficient < 20 :=
      (Nat.pow_lt_pow_iff_right (by decide : 1 < 10)).mp (by omega)
    rw [Digits.leading] at hleading
    dsimp only
    omega

/-- The sign of a number is read apart from its digits. -/
theorem ofFloat?_signed {r : Binary64} (hf : Binary64.ofFloat? f = some r)
    (hr : r.negative = false) (negative : Bool) : Binary64.ofFloat? (if negative then -f else f) =
      some ⟨negative, r.significand, r.exponent⟩ := by
  cases negative with
  | true =>
    have hneg := Binary64.ofFloat?_neg hf
    rwa [hr] at hneg
  | false =>
    have heq : r = ⟨false, r.significand, r.exponent⟩ := Binary64.ext hr rfl rfl
    exact hf.trans (congrArg some heq)

/-- A whole number of at most 64 bits is read as it is written. -/
theorem scaledExactly_of_whole {d : Digits} (hcoefficient : d.coefficient ≠ 0)
    (hwhole : 0 ≤ d.exponent) (hfits : d.value ≤ maxSignificand) : ScaledExactly d := by
  have hleading : d.leading ≤ 20 := by
    by_contra hlarge
    have hpow : (10 : ℚ) ^ (20 : ℤ) ≤ 10 ^ d.leading :=
      zpow_le_zpow_right₀ (by norm_num) (by omega)
    have hmax : (maxSignificand : ℚ) < 10 ^ (20 : ℤ) := by
      exact_mod_cast (show maxSignificand < 10 ^ 20 by decide)
    exact absurd ((hpow.trans (Digits.pow_leading_le hcoefficient).1).trans hfits) (not_le.mpr hmax)
  have hvalue : ((d.coefficient * 10 ^ d.exponent.toNat : ℕ) : ℚ) = d.value := by
    rw [Digits.value, Nat.cast_mul, Nat.cast_pow, ten_zpow_eq hwhole]
    rfl
  rw [← hvalue, Nat.cast_le] at hfits
  left
  rw [reading, if_pos ⟨hwhole, hleading⟩]
  exact Int.natCast_eq_zero.mpr (appendZeros_of_le hfits)

/-- Both zeros are read as a zero. -/
theorem read_canonicalText_zero (hn : Binary64.ofFloat? n = some b) (hzero : b.significand = 0) :
    read (canonicalText n) = .ok (.number 0) ∧ (0 == n) = true ∧
      Binary64.ofFloat? 0 = some ⟨false, 0, Binary64.minExponent⟩ := by
  have htext : canonicalText n = "0" := by simp only [canonicalText, hn, if_pos hzero]
  have hparts : Binary64.ofFloat? 0 = some ⟨false, 0, Binary64.minExponent⟩ := by decide +kernel
  rw [htext]
  exact ⟨by rfl, Binary64.beq_of_zero hparts hn rfl hzero, hparts⟩

end Remap.Json

namespace Remap.Payload

open Decimal

/-- **The text of a finite number is always read, as a number close to it.** What is read are the
digits of its shortest decimal, scaled by a power of ten in double arithmetic. The number comes back
as it was if nothing but the result is rounded: if there is nothing to scale, or if the digits have
at most 53 bits and the power is at most the 22nd. Else it has its sign, and is at most six units in
its last place away. -/
theorem read_write_json_number {n : Float} {b : Binary64} (hn : Binary64.ofFloat? n = some b)
    (pretty : Bool) (limits : Limits) : ∃ text, write .json pretty (.number n) = .ok text ∧
      (text.utf8ByteSize ≤ limits.maxBytes → ∃ m, read .json limits text = .ok (.number m) ∧
        (b.significand = 0 ∨ Json.ScaledExactly (b.shortest .up) → (m == n) = true) ∧
        (b.significand ≠ 0 → ∃ f, Json.scaled? (b.shortest .up) = some f ∧
          m = if b.negative then -f else f) ∧
        ∃ c, Binary64.ofFloat? m = some c ∧ |c.abs - b.abs| ≤ 6 * 2 ^ b.exponent ∧
          (b.significand ≠ 0 → c.negative = b.negative)) := by
  obtain ⟨-, hb, hexp⟩ := Binary64.unpack_of_ofFloat? hn
  have htext : Json.write pretty (.number n) = canonicalText n := by
    have hpayload : payloadText n = canonicalText n := by rw [payloadText, hn]
    rw [Json.write, Json.writeAt]
    dsimp only
    rw [hpayload]
    exact String.ofList_toList
  refine ⟨canonicalText n, by rw [write, htext], fun hsize => ?_⟩
  have hread {m : Float} (h : Json.read (canonicalText n) = .ok (.number m)) :
      read .json limits (canonicalText n) = .ok (.number m) :=
    read_json_eq_ok_iff.mpr ⟨hsize, h, Nat.zero_le _⟩
  by_cases hzero : b.significand = 0
  · obtain ⟨hm, heq, hparts⟩ := Json.read_canonicalText_zero hn hzero
    refine ⟨0, hread hm, fun _ => heq, absurd hzero, _, hparts, ?_, absurd hzero⟩
    rw [Binary64.abs, Binary64.abs, hzero]
    norm_num
    positivity
  · obtain ⟨f, hf⟩ := Json.exists_scaled? hb hexp hzero
    obtain ⟨hpos, hfits, hcovers⟩ := Json.reading_covers hzero hb.significand_lt
    obtain ⟨r, hr, hsign, hclose⟩ := Json.sub_le_of_scale? hb hexp hpos hfits hcovers
      (Json.neg_le_reading hb hexp hzero) hf
    refine ⟨_, hread (Json.read_canonicalText hn hb hexp hzero hf), fun hexact => ?_,
      fun _ => ⟨f, hf, rfl⟩, _, Json.ofFloat?_signed hr hsign b.negative, hclose, fun _ => rfl⟩
    have hparts := Json.ofFloat?_scaled? hb hexp hzero (hexact.resolve_left hzero) hf
    exact Binary64.beq_of_ofFloat? (Json.ofFloat?_signed hparts rfl b.negative) hn

theorem read_write_json_number_negative :
    ∃ m, write .json true (.number (-1.5e-7)) = .ok "-1.5e-7" ∧
      read .json .standard "-1.5e-7" = .ok (.number m) ∧ (m == -1.5e-7) = true := by
  have hn : Binary64.ofFloat? (-1.5e-7) = some ⟨true, 5666839779443574, -75⟩ := by decide +kernel
  have htext : write .json true (.number (-1.5e-7)) = .ok "-1.5e-7" := by decide +kernel
  obtain ⟨text, hwrite, h⟩ := read_write_json_number hn true .standard
  obtain rfl : "-1.5e-7" = text := Except.ok.inj (htext.symm.trans hwrite)
  obtain ⟨m, hread, heq, -⟩ := h (by decide +kernel)
  exact ⟨m, htext, hread, heq (.inr (by decide +kernel))⟩

/-- Whether a value is a number that differs from the given one. -/
def isOtherNumber (n : Float) : Value → Bool
  | .number m => !(m == n)
  | _ => false

/-- The 23rd power of ten is no double, so a number is read next to the one that was written. -/
theorem read_write_json_number_tiny :
    ∃ m, write .json false (.number 1e-23) = .ok "1e-23" ∧
      read .json .standard "1e-23" = .ok (.number m) ∧ (m == 1e-23) = false := by
  have htext : write .json false (.number 1e-23) = .ok "1e-23" := by decide +kernel
  have hread : (read .json .standard "1e-23").toOption.any (isOtherNumber 1e-23) = true := by
    decide +kernel
  obtain ⟨v, hv, hne⟩ := (Option.any_eq_true ..).mp hread
  cases v with
  | number m => exact ⟨m, htext, toOption_eq_some_iff.mp hv, by simpa [isOtherNumber] using hne⟩
  | _ => cases hne

end Remap.Payload
