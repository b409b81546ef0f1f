import Mathlib
import Remap.Proofs.Decimal.Shortest

/-!
# The nearest double

A double covers the rationals that are rounded to its magnitude. The exponents here have no upper
bound, so every rational that is not negative is covered by one double, and by no other
(`Covers.unique`). The shortest decimal of a double is covered by it.

Rounding changes a rational by a factor that is close to one, and by at most half a unit in the last
place. Factors multiply along products and quotients, so what a few roundings do to a decimal is
bounded in units of the double that covers it.
-/

namespace Remap.Decimal

namespace Binary64

/-- Whether a rational lies in an interval. -/
def Interval.Holds (i : Interval) (q : ℚ) : Prop :=
  if i.closed then i.low ≤ q ∧ q ≤ i.high else i.low < q ∧ q < i.high

/-- Whether a rational is rounded to the magnitude of a double. -/
def Covers (b : Binary64) (x : ℚ) : Prop := b.interval.Holds (4 * (x / 2 ^ b.exponent))

/-- Whether a significand has as many bits as it may have. Each double is canonical, once the
exponent is no greater than that of a double. -/
structure Canonical (b : Binary64) : Prop where
  significand_lt : b.significand < 2 ^ 53
  exponent_ge : minExponent ≤ b.exponent
  normal : 2 ^ 52 ≤ b.significand ∨ b.exponent = minExponent

variable {b c : Binary64} {x : ℚ} {q : ℚ} {i : Interval}

/-! ## Bounds -/

theorem Interval.Holds.low_le (h : i.Holds q) : i.low ≤ q := by
  rw [Holds] at h
  split at h
  · exact h.1
  · exact h.1.le

theorem Interval.Holds.le_high (h : i.Holds q) : q ≤ i.high := by
  rw [Holds] at h
  split at h
  · exact h.2
  · exact h.2.le

/-- The bounds of an interval belong to it exactly if the significand is even. -/
theorem holds_iff : b.interval.Holds q ↔
    (b.interval.low < q ∧ q < b.interval.high) ∨
      (b.significand % 2 = 0 ∧ b.interval.low ≤ q ∧ q ≤ b.interval.high) := by
  have hclosed : b.interval.closed = decide (b.significand % 2 = 0) := rfl
  rw [Interval.Holds, hclosed]
  by_cases heven : b.significand % 2 = 0
  · simp only [heven, decide_true, if_true, true_and]
    exact ⟨.inr, fun h => h.elim (fun h => ⟨h.1.le, h.2.le⟩) id⟩
  · simp [heven]

theorem interval_low_cases (b : Binary64) :
    b.interval.low = 4 * b.significand - 2 ∨
      (b.significand = 2 ^ 52 ∧ minExponent < b.exponent ∧ b.interval.low = 2 ^ 54 - 1) := by
  rw [interval]
  dsimp only
  split
  · next h => exact .inr ⟨h.1, h.2, by rw [h.1]; rfl⟩
  · exact .inl rfl

theorem four_mul_le_low_add_two (b : Binary64) : 4 * b.significand ≤ b.interval.low + 2 := by
  rcases b.interval_low_cases with h | ⟨hs, -, h⟩ <;> omega

theorem interval_high (b : Binary64) : b.interval.high = 4 * b.significand + 2 := rfl

/-- A double above the least exponent covers nothing that would have less bits there. -/
theorem Canonical.le_low_add_one (hb : b.Canonical) (hexp : minExponent < b.exponent) :
    2 ^ 54 ≤ b.interval.low + 1 := by
  have hnormal : 2 ^ 52 ≤ b.significand := hb.normal.resolve_right hexp.ne'
  rw [interval]
  dsimp only
  split
  · next h => rw [h.1]; decide
  · next h =>
    have hne : b.significand ≠ 2 ^ 52 := fun heq => h ⟨heq, hexp⟩
    omega

theorem Covers.low_mul_le (h : b.Covers x) : b.interval.low * 2 ^ b.exponent ≤ 4 * x := by
  have hlow := Interval.Holds.low_le h
  rwa [← mul_div_assoc, le_div_iff₀ (by positivity)] at hlow

theorem Covers.le_high_mul (h : b.Covers x) :
    4 * x ≤ (4 * b.significand + 2) * 2 ^ b.exponent := by
  have hhigh : 4 * (x / 2 ^ b.exponent) ≤ 4 * b.significand + 2 := by
    exact_mod_cast Interval.Holds.le_high h
  rwa [← mul_div_assoc, div_le_iff₀ (by positivity)] at hhigh

/-- What a double above the least exponent covers is not much less than 53 bits. -/
theorem Covers.pow_mul_le (hb : b.Canonical) (hexp : minExponent < b.exponent)
    (h : b.Covers x) : (2 ^ 54 - 1) * 2 ^ b.exponent ≤ 4 * x := by
  have hlow : (2 : ℚ) ^ 54 ≤ b.interval.low + 1 := by exact_mod_cast hb.le_low_add_one hexp
  refine le_trans ?_ h.low_mul_le
  gcongr
  linarith

theorem Covers.nonneg (h : b.Covers x) : 0 ≤ x := by
  have hlow : (0 : ℚ) ≤ b.interval.low * 2 ^ b.exponent := by positivity
  linarith [h.low_mul_le]

/-- What is at most half a unit away is covered by an even significand. Below a power of two it
has to be a quarter of a unit. -/
theorem covers_of_even (heven : b.significand % 2 = 0) (hx : 0 ≤ x)
    (hlow : b.significand - 1 / 2 ≤ x / 2 ^ b.exponent)
    (hhigh : x / 2 ^ b.exponent ≤ b.significand + 1 / 2)
    (hpower : b.significand = 2 ^ 52 → minExponent < b.exponent →
      (b.significand - 1 / 4 : ℚ) ≤ x / 2 ^ b.exponent) : b.Covers x := by
  refine holds_iff.mpr (.inr ⟨heven, ?_, ?_⟩)
  · rcases b.interval_low_cases with hcase | ⟨hs, hexp, hcase⟩
    · rw [hcase]
      by_cases hzero : 2 ≤ 4 * b.significand
      · rw [Nat.cast_sub hzero]
        push_cast
        linarith
      · rw [Nat.sub_eq_zero_of_le (by omega), Nat.cast_zero]
        positivity
    · have hpower := hpower hs hexp
      rw [hs] at hpower
      rw [hcase]
      norm_num at hpower ⊢
      linarith
  · rw [interval_high]
    push_cast
    linarith

theorem covers_of_odd (hodd : b.significand % 2 = 1)
    (hlow : b.significand - 1 / 2 < x / 2 ^ b.exponent)
    (hhigh : x / 2 ^ b.exponent < b.significand + 1 / 2) : b.Covers x := by
  refine holds_iff.mpr (.inl ⟨?_, ?_⟩)
  · rcases b.interval_low_cases with hcase | ⟨hs, -⟩
    · rw [hcase, Nat.cast_sub (by omega)]
      push_cast
      linarith
    · omega
  · rw [interval_high]
    push_cast
    linarith

/-! ## Uniqueness -/

theorem Covers.significand_eq (h : b.Covers x) (h' : c.Covers x) (hexp : b.exponent = c.exponent) :
    b.significand = c.significand := by
  wlog hlt : b.significand < c.significand generalizing b c
  · by_contra hne
    exact hne (this h' h hexp.symm (by omega)).symm
  exfalso
  rw [Covers, hexp] at h
  rw [Covers] at h'
  generalize 4 * (x / 2 ^ c.exponent) = q at h h'
  have hhigh := h.le_high
  have hlow := h'.low_le
  have hbounds : (4 * c.significand : ℚ) ≤ c.interval.low + 2 := by
    exact_mod_cast c.four_mul_le_low_add_two
  have hnext : (b.significand : ℚ) + 1 ≤ c.significand := by exact_mod_cast hlt
  rw [interval_high] at hhigh
  push_cast at hhigh
  -- the intervals of neighbours meet in a point, which belongs to one of them
  have hmeet : (b.significand : ℚ) + 1 = c.significand := by linarith
  have hmeet : b.significand + 1 = c.significand := by exact_mod_cast hmeet
  rcases holds_iff.mp h with ⟨-, hopen⟩ | ⟨heven, -⟩
  · rw [interval_high] at hopen
    push_cast at hopen
    linarith
  · rcases holds_iff.mp h' with ⟨hopen, -⟩ | ⟨heven', -⟩
    · linarith
    · omega

theorem Covers.exponent_le (hb : b.Canonical) (hc : c.Canonical) (h : b.Covers x)
    (h' : c.Covers x) : c.exponent ≤ b.exponent := by
  by_contra hlt
  have hlow := h'.pow_mul_le hc (by have := hb.exponent_ge; omega)
  have hhigh := h.le_high_mul
  have hsignificand : (b.significand : ℚ) + 1 ≤ 2 ^ 53 := by exact_mod_cast hb.significand_lt
  have hpow : (2 : ℚ) ^ b.exponent * 2 ≤ 2 ^ c.exponent := by
    rw [← zpow_add_one₀ (by norm_num)]
    exact zpow_le_zpow_right₀ (by norm_num) (by omega)
  have hpos : (0 : ℚ) < 2 ^ b.exponent := by positivity
  -- the greater interval starts where the smaller one ends at the latest, and that end is open
  have hend : (2 ^ 55 - 2) * 2 ^ b.exponent ≤ 4 * x := by linarith
  have hmeet : (b.significand : ℚ) + 1 = 2 ^ 53 := by nlinarith
  rcases holds_iff.mp h with ⟨-, hopen⟩ | ⟨heven, -⟩
  · rw [interval_high, ← mul_div_assoc, div_lt_iff₀ hpos] at hopen
    push_cast at hopen
    nlinarith
  · have hmeet : b.significand + 1 = 2 ^ 53 := by exact_mod_cast hmeet
    omega

/-- A rational is covered by one double only. -/
theorem Covers.unique (hb : b.Canonical) (hc : c.Canonical) (h : b.Covers x) (h' : c.Covers x) :
    b.significand = c.significand ∧ b.exponent = c.exponent := by
  have hexp : b.exponent = c.exponent :=
    le_antisymm (h'.exponent_le hc hb h) (h.exponent_le hb hc h')
  exact ⟨h.significand_eq h' hexp, hexp⟩

/-! ## Distances -/

/-- A multiple of the unit in the last place is covered by itself only. -/
theorem Covers.significand_eq_of_multiple {k : ℕ} (h : b.Covers (k * 2 ^ b.exponent)) :
    b.significand = k := by
  have hpos : (2 : ℚ) ^ b.exponent ≠ 0 := by positivity
  rw [Covers, mul_div_cancel_right₀ _ hpos] at h
  have hlow : b.interval.low ≤ 4 * k := by exact_mod_cast h.low_le
  have hhigh : 4 * k ≤ 4 * b.significand + 2 := by exact_mod_cast h.le_high
  have := b.four_mul_le_low_add_two
  omega

/-- A double covers itself. -/
theorem covers_abs (b : Binary64) : b.Covers b.abs := by
  have hpos : (2 : ℚ) ^ b.exponent ≠ 0 := by positivity
  have hself : b.abs / 2 ^ b.exponent = b.significand := mul_div_cancel_right₀ _ hpos
  have habs : 0 ≤ b.abs := by
    rw [abs]
    positivity
  rcases Nat.mod_two_eq_zero_or_one b.significand with heven | hodd
  · refine covers_of_even heven habs ?_ ?_ fun _ _ => ?_ <;> rw [hself] <;> linarith
  · refine covers_of_odd hodd ?_ ?_ <;> rw [hself] <;> linarith

/-- What is at least one is covered by a double above the least exponent. -/
theorem Covers.min_lt (hb : b.Canonical) (h : b.Covers x) (hx : 1 ≤ x) :
    minExponent < b.exponent := by
  refine lt_of_le_of_ne hb.exponent_ge fun hmin => ?_
  have hsignificand : (b.significand : ℚ) + 1 ≤ 2 ^ 53 := by exact_mod_cast hb.significand_lt
  have hpow : (2 : ℚ) ^ b.exponent ≤ 2 ^ (-54 : ℤ) :=
    zpow_le_zpow_right₀ (by norm_num) (hmin ▸ (by decide))
  have hpos : (0 : ℚ) < 2 ^ b.exponent := by positivity
  norm_num at hpow
  nlinarith [h.le_high_mul]

theorem Covers.significand_ne_zero (hb : b.Canonical) (h : b.Covers x) (hx : 1 ≤ x) :
    b.significand ≠ 0 := by
  have hnormal := hb.normal.resolve_right (h.min_lt hb hx).ne'
  intro hzero
  rw [hzero] at hnormal
  norm_num at hnormal

/-- What is not rounded to infinity. -/
theorem Covers.exponent_le_max (hb : b.Canonical) (h : b.Covers x)
    (hx : x < (2 ^ 54 - 1) * 2 ^ (970 : ℤ)) : b.exponent ≤ maxExponent := by
  by_contra hlarge
  have hmax : maxExponent = 971 := rfl
  have hmin : minExponent = -1074 := rfl
  have hlow := h.pow_mul_le hb (by omega)
  have hpow : (2 : ℚ) ^ (970 : ℤ) * 4 ≤ 2 ^ b.exponent := by
    rw [show (4 : ℚ) = 2 ^ (2 : ℤ) by norm_num, ← zpow_add₀ (by norm_num)]
    exact zpow_le_zpow_right₀ (by norm_num) (by omega)
  linarith

/-- No double covers a number that has more than 1024 bits. -/
theorem Covers.lt_two_zpow (hb : b.Canonical) (hexp : b.exponent ≤ maxExponent)
    (h : b.Covers x) : x < 2 ^ (1024 : ℤ) := by
  have hsignificand : (b.significand : ℚ) + 1 ≤ 2 ^ 53 := by exact_mod_cast hb.significand_lt
  have hpow : (2 : ℚ) ^ 53 * 2 ^ b.exponent ≤ 2 ^ (1024 : ℤ) := by
    rw [← zpow_natCast, ← zpow_add₀ (by norm_num)]
    exact zpow_le_zpow_right₀ (by norm_num) (by rw [maxExponent] at hexp; push_cast; omega)
  have hpos : (0 : ℚ) < 2 ^ b.exponent := by positivity
  have hhigh := h.le_high_mul
  have hunits := mul_le_mul_of_nonneg_right hsignificand hpos.le
  generalize (2 : ℚ) ^ (1024 : ℤ) = bound at hpow ⊢
  linarith

/-- A whole number of at most 53 bits is a double. -/
theorem Covers.abs_eq {n : ℕ} (hb : b.Canonical) (h : b.Covers n) (hn : n < 2 ^ 53) :
    b.abs = n := by
  have hexp : b.exponent ≤ 0 := by
    by_contra hlarge
    have hmin : minExponent = -1074 := rfl
    have hlow := h.pow_mul_le hb (by omega)
    have hpow : (2 : ℚ) ^ (1 : ℤ) ≤ 2 ^ b.exponent :=
      zpow_le_zpow_right₀ (by norm_num) (by omega)
    have hn : (n : ℚ) + 1 ≤ 2 ^ 53 := by exact_mod_cast hn
    rw [zpow_one] at hpow
    linarith
  have hmultiple : (n : ℚ) = (n * 2 ^ (-b.exponent).toNat : ℕ) * 2 ^ b.exponent := by
    push_cast
    rw [mul_assoc, ← zpow_natCast, ← zpow_add₀ (by norm_num), Int.toNat_of_nonneg (by omega),
      neg_add_cancel, zpow_zero, mul_one]
  rw [hmultiple] at h ⊢
  rw [abs, h.significand_eq_of_multiple]

/-- The relative error of a double above the least exponent. -/
theorem Covers.abs_mul_le (hb : b.Canonical) (hexp : minExponent < b.exponent) (h : b.Covers x) :
    b.abs * 2 ^ 53 ≤ x * (2 ^ 53 + 1) := by
  have hlow := h.low_mul_le
  have hratio : 4 * b.significand * 2 ^ 53 ≤ b.interval.low * (2 ^ 53 + 1) := by
    have := hb.le_low_add_one hexp
    have := b.four_mul_le_low_add_two
    rcases b.interval_low_cases with hcase | ⟨hs, -, hcase⟩ <;> omega
  have hratio : (4 * b.significand * 2 ^ 53 : ℚ) ≤ b.interval.low * (2 ^ 53 + 1) := by
    exact_mod_cast hratio
  have hpos : (0 : ℚ) < 2 ^ b.exponent := by positivity
  rw [abs]
  nlinarith [mul_le_mul_of_nonneg_right hratio hpos.le]

/-! ## The shortest decimal -/

variable {tie : Tie} {grid : Int} {n factor : Nat}

theorem Interval.holds_of_contains_scale (hfactor : 0 < factor)
    (h : (i.scale factor).contains n = true) : i.Holds (n / factor) := by
  have hpos : (0 : ℚ) < factor := Nat.cast_pos.mpr hfactor
  rw [contains, scale] at h
  rw [Holds]
  split at h
  · next hclosed =>
    rw [if_pos hclosed, le_div_iff₀ hpos, div_le_iff₀ hpos]
    obtain ⟨hlow, hhigh⟩ := of_decide_eq_true h
    exact ⟨by exact_mod_cast hlow, by exact_mod_cast hhigh⟩
  · next hopen =>
    rw [if_neg hopen, lt_div_iff₀ hpos, div_lt_iff₀ hpos]
    obtain ⟨hlow, hhigh⟩ := of_decide_eq_true h
    exact ⟨by exact_mod_cast hlow, by exact_mod_cast hhigh⟩

theorem covers_of_onGrid? (h : b.onGrid? tie grid = some n) : b.Covers (n * 10 ^ grid) := by
  have hholds := Interval.holds_of_contains_scale (b.gridFactor_pos grid) (onGrid?_cases h).2
  have hscale : b.gridScale grid ≠ 0 := (b.gridScale_pos grid).ne'
  have hquarter : (2 : ℚ) ^ (b.exponent - 2) = 2 ^ b.exponent / 4 := by
    rw [zpow_sub₀ (by norm_num)]
    norm_num
  rwa [Nat.cast_mul, gridStep_eq, gridFactor_eq, ← mul_assoc, mul_div_mul_right _ _ hscale,
    hquarter, div_div_eq_mul_div, mul_comm, mul_div_assoc] at hholds

/-- **The shortest decimal of a double is rounded to it.** -/
theorem covers_shortest (tie : Tie) (hb : b.significand ≠ 0) (hlt : b.significand < 2 ^ 53) :
    b.Covers (b.shortest tie).value := by
  obtain ⟨c, e, -, -, hc, heq⟩ := shortest_eq tie hb hlt
  rw [heq, Digits.normalize_value]
  exact covers_of_onGrid? hc

theorem two_zpow_le {k : ℤ} (hk : 0 ≤ k) : (2 : ℚ) ^ (3 * k) ≤ 10 ^ k := by
  rw [zpow_mul]
  exact zpow_le_zpow_left₀ hk (by norm_num) (by norm_num)

theorem ten_zpow_le {k : ℤ} (hk : k ≤ 0) : (10 : ℚ) ^ k ≤ 2 ^ (3 * k) := by
  have hinv := inv_anti₀ (by positivity) (two_zpow_le (Int.neg_nonneg_of_nonpos hk))
  rwa [← zpow_neg, ← zpow_neg, neg_neg, mul_neg, neg_neg] at hinv

/-- The first digit of the shortest decimal of a double stands not far from its point. -/
theorem natAbs_shortest_leading_le (tie : Tie) (hb : b.significand ≠ 0) (hcanonical : b.Canonical)
    (hexp : b.exponent ≤ maxExponent) : (b.shortest tie).leading.natAbs ≤ 400 := by
  have hlt := hcanonical.significand_lt
  have hmin : minExponent = -1074 := rfl
  have hmax : maxExponent = 971 := rfl
  have hge := hcanonical.exponent_ge
  have hcoefficient : (b.shortest tie).coefficient ≠ 0 := fun h =>
    shortest_coefficient tie hb hlt (by rw [h])
  obtain ⟨hlow, hhigh⟩ := Digits.pow_leading_le hcoefficient
  have hcovers := covers_shortest tie hb hlt
  have hfrom : -400 ≤ (b.shortest tie).leading := by
    by_contra hlead
    have hinterval : (2 : ℚ) ≤ b.interval.low := by
      have := b.four_mul_le_low_add_two
      exact_mod_cast (show 2 ≤ b.interval.low by omega)
    have hpos : (0 : ℚ) < 2 ^ b.exponent := by positivity
    have hten := ten_zpow_le (k := (b.shortest tie).leading + 1) (by omega)
    have htwo : (2 : ℚ) ^ (3 * ((b.shortest tie).leading + 1)) * 2 ≤ 2 ^ b.exponent := by
      rw [← zpow_add_one₀ (by norm_num)]
      exact zpow_le_zpow_right₀ (by norm_num) (by omega)
    nlinarith [hcovers.low_mul_le]
  have hto : (b.shortest tie).leading ≤ 400 := by
    by_contra hlead
    have htwo := two_zpow_le (k := (b.shortest tie).leading) (by omega)
    have hpow : (2 : ℚ) ^ (1024 : ℤ) ≤ 2 ^ (3 * (b.shortest tie).leading) :=
      zpow_le_zpow_right₀ (by norm_num) (by omega)
    linarith [hcovers.lt_two_zpow hcanonical hexp]
  omega

end Binary64

/-! ## A few roundings -/

variable {b c : Binary64} {j k : ℕ} {x y z x' y' : ℚ}

/-- The least factor by which rounding changes a rational. -/
def roundoff : ℚ := 1 - 1 / 2 ^ 53

/-- Whether two rationals are apart by no more than so many roundings. -/
def Near (k : ℕ) (x y : ℚ) : Prop := x * roundoff ^ k ≤ y ∧ y * roundoff ^ k ≤ x

theorem roundoff_pos : 0 < roundoff := by norm_num [roundoff]

theorem roundoff_pow_pos (k : ℕ) : 0 < roundoff ^ k := pow_pos roundoff_pos k

theorem roundoff_pow_le_one (k : ℕ) : roundoff ^ k ≤ 1 :=
  pow_le_one₀ roundoff_pos.le (by norm_num [roundoff])

namespace Near

theorem refl (hx : 0 ≤ x) : Near k x x :=
  ⟨mul_le_of_le_one_right hx (roundoff_pow_le_one k),
    mul_le_of_le_one_right hx (roundoff_pow_le_one k)⟩

theorem trans (h : Near j x y) (h' : Near k y z) : Near (j + k) x z := by
  constructor
  · calc x * roundoff ^ (j + k) = x * roundoff ^ j * roundoff ^ k := by ring
      _ ≤ y * roundoff ^ k := mul_le_mul_of_nonneg_right h.1 (roundoff_pow_pos k).le
      _ ≤ z := h'.1
  · calc z * roundoff ^ (j + k) = z * roundoff ^ k * roundoff ^ j := by ring
      _ ≤ y * roundoff ^ j := mul_le_mul_of_nonneg_right h'.2 (roundoff_pow_pos j).le
      _ ≤ x := h.2

theorem mul (h : Near j x y) (h' : Near k x' y') (hx : 0 ≤ x) (hy : 0 ≤ y) (hx' : 0 ≤ x')
    (hy' : 0 ≤ y') : Near (j + k) (x * x') (y * y') := by
  constructor
  · calc x * x' * roundoff ^ (j + k) = (x * roundoff ^ j) * (x' * roundoff ^ k) := by ring
      _ ≤ y * y' := mul_le_mul h.1 h'.1 (mul_nonneg hx' (roundoff_pow_pos k).le) hy
  · calc y * y' * roundoff ^ (j + k) = (y * roundoff ^ j) * (y' * roundoff ^ k) := by ring
      _ ≤ x * x' := mul_le_mul h.2 h'.2 (mul_nonneg hy' (roundoff_pow_pos k).le) hx

theorem inv (h : Near k x y) (hx : 0 < x) (hy : 0 < y) : Near k x⁻¹ y⁻¹ := by
  have hpos := roundoff_pow_pos k
  constructor
  · rw [inv_mul_le_iff₀ hx, le_mul_inv_iff₀ hy, mul_comm]
    exact h.2
  · rw [inv_mul_le_iff₀ hy, le_mul_inv_iff₀ hx, mul_comm]
    exact h.1

theorem div (h : Near j x y) (h' : Near k x' y') (hx : 0 ≤ x) (hy : 0 ≤ y) (hx' : 0 < x')
    (hy' : 0 < y') : Near (j + k) (x / x') (y / y') := by
  rw [div_eq_mul_inv, div_eq_mul_inv]
  exact h.mul (h'.inv hx' hy') hx hy (inv_nonneg.mpr hx'.le) (inv_nonneg.mpr hy'.le)

/-- A few roundings change a rational by little more than a unit in the 53rd bit each. -/
theorem sub_le (h : Near k x y) (hk : k ≤ 4) (hy : 0 ≤ y) :
    |x - y| * 2 ^ 53 ≤ (k + 1 / 4) * y := by
  have hbernoulli : 1 + (k : ℚ) * -(1 / 2 ^ 53) ≤ roundoff ^ k := by
    rw [roundoff, sub_eq_add_neg]
    exact one_add_mul_le_pow (by norm_num) k
  have hx : 0 ≤ x := (mul_nonneg hy (roundoff_pow_pos k).le).trans h.2
  have hlow := (mul_le_mul_of_nonneg_left hbernoulli hx).trans h.1
  have hhigh := (mul_le_mul_of_nonneg_left hbernoulli hy).trans h.2
  interval_cases k <;> rcases abs_cases (x - y) with ⟨heq, -⟩ | ⟨heq, -⟩ <;> rw [heq] <;>
    norm_num at hlow hhigh ⊢ <;> linarith

end Near

/-! ## One rounding -/

namespace Binary64

/-- Above the least exponent, rounding changes a rational by a factor. -/
theorem Covers.near (hb : b.Canonical) (h : b.Covers x) (hexp : minExponent < b.exponent) :
    Near 1 b.abs x := by
  have habove := h.abs_mul_le hb hexp
  have hsignificand : (2 : ℚ) ^ 52 ≤ b.significand := by
    exact_mod_cast hb.normal.resolve_right hexp.ne'
  have hpos : (0 : ℚ) < 2 ^ b.exponent := by positivity
  have hunits := mul_le_mul_of_nonneg_right hsignificand hpos.le
  have hbelow := h.le_high_mul
  rw [Near, roundoff, pow_one]
  constructor
  · norm_num at habove ⊢
    linarith [h.nonneg]
  · rw [abs]
    norm_num at hunits ⊢
    linarith

/-- Rounding changes a rational by half a unit in the last place at most. -/
theorem Covers.sub_le (h : b.Covers x) : |b.abs - x| ≤ 2 ^ b.exponent / 2 := by
  have hlow : (4 * b.significand : ℚ) ≤ b.interval.low + 2 := by
    exact_mod_cast b.four_mul_le_low_add_two
  have hpos : (0 : ℚ) < 2 ^ b.exponent := by positivity
  have hunits := mul_le_mul_of_nonneg_right hlow hpos.le
  have hbelow := h.low_mul_le
  have habove := h.le_high_mul
  rw [abs_le, abs]
  constructor <;> linarith

/-- What is close to a rational that a double covers is rounded to something close to it. -/
theorem Covers.sub_le_of_close (hb : b.Canonical) (hc : c.Canonical) (h : b.Covers x)
    (h' : c.Covers y) (hclose : |y - x| ≤ 9 / 2 * 2 ^ b.exponent) :
    |c.abs - b.abs| ≤ 6 * 2 ^ b.exponent := by
  have hpos : (0 : ℚ) < 2 ^ b.exponent := by positivity
  -- the greater number has no more than one bit more
  have hunit : (2 : ℚ) ^ c.exponent ≤ 2 * 2 ^ b.exponent := by
    by_contra hlarge
    have hexp : b.exponent + 2 ≤ c.exponent := by
      by_contra hsmall
      refine hlarge ?_
      rw [mul_comm, ← zpow_add_one₀ (by norm_num)]
      exact zpow_le_zpow_right₀ (by norm_num) (by omega)
    have hpow : (2 : ℚ) ^ b.exponent * 4 ≤ 2 ^ c.exponent := by
      rw [show (4 : ℚ) = 2 ^ (2 : ℤ) by norm_num, ← zpow_add₀ (by norm_num)]
      exact zpow_le_zpow_right₀ (by norm_num) hexp
    have hlow := h'.pow_mul_le hc (by have := hb.exponent_ge; omega)
    have hsignificand : (b.significand : ℚ) + 1 ≤ 2 ^ 53 := by exact_mod_cast hb.significand_lt
    have hunits := mul_le_mul_of_nonneg_right hsignificand hpos.le
    have hhigh := h.le_high_mul
    have hclose := (abs_le.mp hclose).2
    linarith
  have hfirst := abs_le.mp h.sub_le
  have hsecond := abs_le.mp h'.sub_le
  have hclose := abs_le.mp hclose
  rw [abs_le]
  constructor <;> linarith

end Binary64

end Remap.Decimal
