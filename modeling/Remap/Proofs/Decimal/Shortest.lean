import Mathlib
import Remap.Decimal.Shortest

/-!
# The digits of the shortest decimal

The search for the shortest decimal starts at a power of ten that is no greater than the double, so
that no coefficient is zero, and ends at the latest where the grid is finer than a quarter of a unit
in the last place. The coefficient that it finds ends in no zero.
-/

namespace Remap.Decimal

namespace Digits

/-! ## Digits of whole numbers -/

theorem ofNat_eq (n : Nat) : ofNat n = (Nat.digits 10 n).reverse := by
  have digits (n : Nat) (acc : List Nat) : ofNat.go n acc = (Nat.digits 10 n).reverse ++ acc := by
    fun_induction ofNat.go n acc with
    | case1 acc => simp
    | case2 n acc hn ih =>
      rw [ih, Nat.digits_of_two_le_of_pos (by decide) (Nat.pos_of_ne_zero hn), List.reverse_cons,
        List.append_assoc, List.singleton_append]
  rw [ofNat, digits, List.append_nil]

theorem count_eq (n : Nat) : count n = (Nat.digits 10 n).length := by
  rw [count, ofNat_eq, List.length_reverse]

theorem lt_pow_count (n : Nat) : n < 10 ^ count n := by
  rw [count_eq]
  exact Nat.lt_base_pow_length_digits (by decide)

theorem pow_count_le {n : Nat} (hn : n ≠ 0) : 10 ^ count n ≤ 10 * n := by
  rw [count_eq]
  exact Nat.base_pow_length_digits_le 10 n (by decide) hn

/-! ## Zeros at the end -/

/-- The rational that a decimal stands for. -/
def value (d : Digits) : ℚ := d.coefficient * 10 ^ d.exponent

theorem normalize_coefficient {c : Nat} (e : Int) (hc : c ≠ 0) :
    (normalize c e).coefficient % 10 ≠ 0 := by
  fun_induction normalize c e with
  | case1 => exact absurd rfl hc
  | case2 c e _ hzero ih => exact ih (by omega)
  | case3 c e _ hdigit => exact hdigit

theorem normalize_coefficient_le (c : Nat) (e : Int) : (normalize c e).coefficient ≤ c := by
  fun_induction normalize c e with
  | case1 => exact Nat.zero_le _
  | case2 c e _ _ ih => omega
  | case3 => exact le_rfl

theorem normalize_value (c : Nat) (e : Int) : (normalize c e).value = c * 10 ^ e := by
  fun_induction normalize c e with
  | case1 => simp [value]
  | case2 c e _ hzero ih =>
    have hc : (c : ℚ) = (c / 10 : ℕ) * 10 := by
      exact_mod_cast (Nat.div_mul_cancel (Nat.dvd_of_mod_eq_zero hzero)).symm
    rw [ih, hc, zpow_add₀ (by norm_num), zpow_one]
    ring
  | case3 => rfl

theorem pow_leading_le {d : Digits} (hd : d.coefficient ≠ 0) :
    (10 : ℚ) ^ d.leading ≤ d.value ∧ d.value < 10 ^ (d.leading + 1) := by
  have hlow : (10 : ℚ) ^ count d.coefficient ≤ 10 * d.coefficient := by
    exact_mod_cast pow_count_le hd
  have hhigh : (d.coefficient : ℚ) < 10 ^ count d.coefficient := by
    exact_mod_cast lt_pow_count d.coefficient
  have hpos : (0 : ℚ) < 10 ^ d.exponent := by positivity
  have hlead : (10 : ℚ) ^ (d.leading + 1) = 10 ^ count d.coefficient * 10 ^ d.exponent := by
    rw [leading, ← zpow_natCast, ← zpow_add₀ (by norm_num)]
    congr 1
    ring
  have hlead' : (10 : ℚ) ^ (d.leading + 1) = 10 ^ d.leading * 10 := zpow_add_one₀ (by norm_num) _
  rw [value]
  constructor <;> nlinarith

end Digits

namespace Binary64

variable {b : Binary64} {tie : Tie} {grid : Int} {c : Nat}

/-- The magnitude of a double. -/
def abs (b : Binary64) : ℚ := b.significand * 2 ^ b.exponent

theorem abs_nonneg (b : Binary64) : 0 ≤ b.abs := by
  rw [abs]
  positivity

theorem abs_pos (hb : b.significand ≠ 0) : 0 < b.abs :=
  mul_pos (by exact_mod_cast Nat.pos_of_ne_zero hb) (by positivity)

/-- A power with an exponent cut at nought, as is done to keep fractions whole. -/
theorem pow_toNat (base : ℚ) (hbase : base ≠ 0) (e : Int) :
    base ^ e.toNat = base ^ e * base ^ (-e).toNat := by
  rw [← zpow_natCast, ← zpow_natCast, ← zpow_add₀ hbase]
  congr 1
  omega

/-- A comparison of whole numbers that stand for a fraction and a power of ten. -/
theorem le_iff_pow_le (num den : Nat) (hden : den ≠ 0) (e : Int) :
    den * 10 ^ e.toNat ≤ num * 10 ^ (-e).toNat ↔ (10 : ℚ) ^ e ≤ num / den := by
  have hcast : ((den * 10 ^ e.toNat : ℕ) : ℚ) ≤ ((num * 10 ^ (-e).toNat : ℕ) : ℚ) ↔
      den * 10 ^ e.toNat ≤ num * 10 ^ (-e).toNat := Nat.cast_le
  have hpos : (0 : ℚ) < 10 ^ (-e).toNat := by positivity
  have hden' : (0 : ℚ) < den := by exact_mod_cast Nat.pos_of_ne_zero hden
  rw [← hcast]
  push_cast
  rw [pow_toNat 10 (by norm_num), ← mul_assoc, mul_le_mul_iff_left₀ hpos, mul_comm,
    le_div_iff₀ hden']

/-- The magnitude as a fraction of whole numbers. -/
theorem abs_eq_div (b : Binary64) : b.abs =
    (b.significand * Nat.pow 2 b.exponent.toNat : ℕ) / (Nat.pow 2 (-b.exponent).toNat : ℕ) := by
  have hden : (2 : ℚ) ^ (-b.exponent).toNat ≠ 0 := by positivity
  rw [Nat.pow_eq, Nat.pow_eq]
  push_cast
  rw [pow_toNat 2 (by norm_num), abs, ← mul_assoc, mul_div_cancel_right₀ _ hden]

/-- The power of ten that the search starts at has the exponent of the first digit. -/
theorem pow_magnitude_le (hb : b.significand ≠ 0) :
    (10 : ℚ) ^ b.magnitude ≤ b.abs ∧ b.abs < 10 ^ (b.magnitude + 1) := by
  have hnum : b.significand * Nat.pow 2 b.exponent.toNat ≠ 0 :=
    Nat.mul_ne_zero hb (Nat.pow_pos (by decide)).ne'
  have hden : Nat.pow 2 (-b.exponent).toNat ≠ 0 := (Nat.pow_pos (by decide)).ne'
  rw [magnitude, abs_eq_div]
  revert hnum hden
  generalize b.significand * Nat.pow 2 b.exponent.toNat = num
  generalize Nat.pow 2 (-b.exponent).toNat = den
  intro hnum hden
  have hden' : (0 : ℚ) < den := by exact_mod_cast Nat.pos_of_ne_zero hden
  have hcount (n : ℕ) : (0 : ℚ) < 10 ^ Digits.count n := by positivity
  -- the numbers of digits leave two exponents, of which the comparison picks one
  have hlow : (10 : ℚ) ^ (((Digits.count num : ℤ) - Digits.count den) - 1) ≤ num / den := by
    have hnum : (10 : ℚ) ^ Digits.count num ≤ 10 * num := by
      exact_mod_cast Digits.pow_count_le hnum
    have hden : (den : ℚ) ≤ 10 ^ Digits.count den := by
      exact_mod_cast (Digits.lt_pow_count den).le
    rw [zpow_sub₀ (by norm_num), zpow_sub₀ (by norm_num), zpow_natCast, zpow_natCast, zpow_one,
      div_div, div_le_div_iff₀ (by have := hcount den; positivity) hden']
    calc (10 : ℚ) ^ Digits.count num * den ≤ 10 * num * 10 ^ Digits.count den := by gcongr
      _ = num * (10 ^ Digits.count den * 10) := by ring
  have hhigh : (num / den : ℚ) < 10 ^ (((Digits.count num : ℤ) - Digits.count den) + 1) := by
    have hnum : (num : ℚ) < 10 ^ Digits.count num := by
      exact_mod_cast Digits.lt_pow_count num
    have hden : (10 : ℚ) ^ Digits.count den ≤ 10 * den := by
      exact_mod_cast Digits.pow_count_le hden
    rw [zpow_add₀ (by norm_num), zpow_sub₀ (by norm_num), zpow_natCast, zpow_natCast, zpow_one,
      div_mul_eq_mul_div, div_lt_div_iff₀ hden' (hcount den)]
    calc (num : ℚ) * 10 ^ Digits.count den ≤ num * (10 * den) := by gcongr
      _ < 10 ^ Digits.count num * (10 * den) := by gcongr
      _ = 10 ^ Digits.count num * 10 * den := by ring
  have hcompare := le_iff_pow_le num den hden (Digits.count num - Digits.count den)
  split
  · next hlt =>
    rw [sub_add_cancel]
    exact ⟨hlow, not_le.mp fun hle => Nat.not_le.mpr hlt (hcompare.mpr hle)⟩
  · next hle => exact ⟨hcompare.mp (Nat.not_lt.mp hle), hhigh⟩

/-- What the bounds of the interval are multiplied with on a grid. -/
def gridFactor (b : Binary64) (grid : Int) : Nat :=
  Nat.pow 2 (b.exponent - 2).toNat * Nat.pow 10 (-grid).toNat

/-- The distance of two points of a grid, on the scale of the interval. -/
def gridStep (b : Binary64) (grid : Int) : Nat :=
  Nat.pow 10 grid.toNat * Nat.pow 2 (-(b.exponent - 2)).toNat

theorem gridFactor_pos (b : Binary64) (grid : Int) : 0 < b.gridFactor grid :=
  Nat.mul_pos (Nat.pow_pos (by decide)) (Nat.pow_pos (by decide))

theorem gridStep_pos (b : Binary64) (grid : Int) : 0 < b.gridStep grid :=
  Nat.mul_pos (Nat.pow_pos (by decide)) (Nat.pow_pos (by decide))

/-- What the numbers on a grid are multiplied with to keep them whole. -/
def gridScale (b : Binary64) (grid : Int) : ℚ :=
  10 ^ (-grid).toNat * 2 ^ (-(b.exponent - 2)).toNat

theorem gridScale_pos (b : Binary64) (grid : Int) : 0 < b.gridScale grid := by
  rw [gridScale]
  positivity

theorem gridStep_eq (b : Binary64) (grid : Int) :
    (b.gridStep grid : ℚ) = 10 ^ grid * b.gridScale grid := by
  rw [gridStep, gridScale, Nat.pow_eq, Nat.pow_eq]
  push_cast
  rw [pow_toNat 10 (by norm_num) grid]
  ring

theorem gridFactor_eq (b : Binary64) (grid : Int) :
    (b.gridFactor grid : ℚ) = 2 ^ (b.exponent - 2) * b.gridScale grid := by
  rw [gridFactor, gridScale, Nat.pow_eq, Nat.pow_eq]
  push_cast
  rw [pow_toNat 2 (by norm_num) (b.exponent - 2)]
  ring

theorem gridStep_le_iff (n : Nat) :
    b.gridStep grid ≤ n * b.gridFactor grid ↔ (10 : ℚ) ^ grid ≤ n * 2 ^ (b.exponent - 2) := by
  have hcast : ((b.gridStep grid : ℕ) : ℚ) ≤ ((n * b.gridFactor grid : ℕ) : ℚ) ↔
      b.gridStep grid ≤ n * b.gridFactor grid := Nat.cast_le
  rw [← hcast, Nat.cast_mul, gridStep_eq, gridFactor_eq, ← mul_assoc,
    mul_le_mul_iff_left₀ (b.gridScale_pos grid)]

theorem abs_eq : b.abs = (4 * b.significand : ℕ) * 2 ^ (b.exponent - 2) := by
  rw [abs, zpow_sub₀ (by norm_num)]
  push_cast
  ring

/-- What is taken on a grid is one of the two points next to the double, and in the interval. -/
theorem onGrid?_cases (h : b.onGrid? tie grid = some c) :
    (c = 4 * b.significand * b.gridFactor grid / b.gridStep grid ∨
      c = 4 * b.significand * b.gridFactor grid / b.gridStep grid + 1) ∧
        (b.interval.scale (b.gridFactor grid)).contains (c * b.gridStep grid) = true := by
  unfold onGrid? at h
  dsimp only at h
  rw [← gridFactor, ← gridStep] at h
  split at h
  · cases h
  · next hbelow _ =>
    obtain rfl := Option.some.inj h
    exact ⟨.inl rfl, hbelow⟩
  · next _ habove =>
    obtain rfl := Option.some.inj h
    exact ⟨.inr rfl, habove⟩
  · next hbelow habove =>
    split at h
    · obtain rfl := Option.some.inj h
      exact ⟨.inl rfl, hbelow⟩
    · split at h
      · obtain rfl := Option.some.inj h
        exact ⟨.inr rfl, habove⟩
      · split at h
        · obtain rfl := Option.some.inj h
          exact ⟨.inr rfl, habove⟩
        · obtain rfl := Option.some.inj h
          split
          · exact ⟨.inl rfl, hbelow⟩
          · exact ⟨.inr rfl, habove⟩

/-- On a grid no coarser than the double, the coefficient is not zero. -/
theorem onGrid?_ne_zero (hgrid : (10 : ℚ) ^ grid ≤ b.abs) (h : b.onGrid? tie grid = some c) :
    c ≠ 0 := by
  have hstep : b.gridStep grid ≤ 4 * b.significand * b.gridFactor grid := by
    rwa [gridStep_le_iff, ← abs_eq]
  have hbelow := Nat.div_pos hstep (b.gridStep_pos grid)
  rcases (onGrid?_cases h).1 with rfl | rfl
  · exact hbelow.ne'
  · exact Nat.succ_ne_zero _

theorem Interval.contains_of_lt {i : Interval} {x : Nat} (hlow : i.low < x) (hhigh : x < i.high) :
    i.contains x = true := by
  rw [contains]
  split <;> simp only [Bool.decide_and, Bool.and_eq_true, decide_eq_true_eq] <;> omega

/-- On a grid that is finer than a quarter of a unit in the last place, some point is in the
interval. -/
theorem onGrid?_ne_none (hb : b.significand ≠ 0)
    (hgrid : (10 : ℚ) ^ grid ≤ 2 ^ (b.exponent - 2)) : b.onGrid? tie grid ≠ none := by
  have hstep : b.gridStep grid ≤ b.gridFactor grid := by
    have h : b.gridStep grid ≤ 1 * b.gridFactor grid ↔ _ := gridStep_le_iff 1
    rw [Nat.one_mul, Nat.cast_one, one_mul] at h
    exact h.mpr hgrid
  -- the point below the double is less than a quarter of a unit away
  have hbelow : (b.interval.scale (b.gridFactor grid)).contains
      (4 * b.significand * b.gridFactor grid / b.gridStep grid * b.gridStep grid) = true := by
    have hle := Nat.div_mul_le_self (4 * b.significand * b.gridFactor grid) (b.gridStep grid)
    have hlt := Nat.lt_div_mul_add (a := 4 * b.significand * b.gridFactor grid)
      (b.gridStep_pos grid)
    have hfactor := b.gridFactor_pos grid
    refine Interval.contains_of_lt ?_ ?_
    · have hlow : b.interval.low + 1 ≤ 4 * b.significand := by
        rw [interval]
        dsimp only
        split <;> omega
      have hlow := Nat.mul_le_mul_right (b.gridFactor grid) hlow
      rw [Nat.add_mul, Nat.one_mul] at hlow
      show b.interval.low * b.gridFactor grid < _
      omega
    · show _ < (4 * b.significand + 2) * b.gridFactor grid
      rw [Nat.add_mul]
      omega
  intro hnone
  unfold onGrid? at hnone
  dsimp only at hnone
  rw [← gridFactor, ← gridStep] at hnone
  split at hnone
  · next hfalse _ => exact absurd (hbelow.symm.trans hfalse) (by decide)
  · cases hnone
  · cases hnone
  · split at hnone
    · cases hnone
    · split at hnone
      · cases hnone
      · split at hnone <;> cases hnone

/-! ## The search -/

/-- Ten to the seventeenth is more than there are quarters of a unit in a significand. -/
theorem pow_sub_le (hb : b.significand < 2 ^ 53) (hgrid : (10 : ℚ) ^ grid ≤ b.abs) :
    (10 : ℚ) ^ (grid - 17) ≤ 2 ^ (b.exponent - 2) := by
  have hexp : (0 : ℚ) < 2 ^ b.exponent := by positivity
  have hlt : (b.significand : ℚ) ≤ 2 ^ 53 := by exact_mod_cast hb.le
  rw [zpow_sub₀ (by norm_num), zpow_sub₀ (by norm_num), div_le_div_iff₀ (by norm_num) (by norm_num)]
  calc (10 : ℚ) ^ grid * 2 ^ (2 : ℤ) ≤ b.abs * 2 ^ (2 : ℤ) := by gcongr
    _ ≤ 2 ^ 53 * 2 ^ b.exponent * 2 ^ (2 : ℤ) := by rw [abs]; gcongr
    _ = 2 ^ b.exponent * 2 ^ 55 := by norm_num; ring
    _ ≤ 2 ^ b.exponent * 10 ^ (17 : ℤ) := by gcongr; norm_num

/-- The search finds a point of some grid. -/
theorem search_eq {fuel : Nat} (hb : b.significand ≠ 0) (hgrid : (10 : ℚ) ^ grid ≤ b.abs)
    (hlast : (10 : ℚ) ^ (grid - fuel) ≤ 2 ^ (b.exponent - 2)) :
    ∃ c e, c ≠ 0 ∧ grid - fuel ≤ e ∧ b.onGrid? tie e = some c ∧
      shortest.search tie b fuel grid = Digits.normalize c e := by
  induction fuel generalizing grid with
  | zero =>
    rw [Nat.cast_zero, sub_zero] at hlast
    obtain ⟨c, hc⟩ : ∃ c, b.onGrid? tie grid = some c :=
      Option.ne_none_iff_exists'.mp (onGrid?_ne_none hb hlast)
    exact ⟨c, grid, onGrid?_ne_zero hgrid hc, by omega, hc, by rw [shortest.search, hc]; rfl⟩
  | succ fuel ih =>
    rw [shortest.search]
    split
    · next c hc => exact ⟨c, grid, onGrid?_ne_zero hgrid hc, by omega, hc, rfl⟩
    · have hfiner : (10 : ℚ) ^ (grid - 1) ≤ b.abs :=
        (zpow_le_zpow_right₀ (by norm_num) (by omega)).trans hgrid
      have hlast' : (10 : ℚ) ^ (grid - 1 - fuel) ≤ 2 ^ (b.exponent - 2) := by
        rwa [sub_sub, add_comm, ← Nat.cast_succ]
      obtain ⟨c, e, hc, he, hfound, hsearch⟩ := ih hfiner hlast'
      exact ⟨c, e, hc, by omega, hfound, hsearch⟩

/-- The shortest decimal is a point of some grid, without the zeros at its end. -/
theorem shortest_eq (tie : Tie) (hb : b.significand ≠ 0) (hlt : b.significand < 2 ^ 53) :
    ∃ c e, c ≠ 0 ∧ b.magnitude - 17 ≤ e ∧ b.onGrid? tie e = some c ∧
      b.shortest tie = Digits.normalize c e := by
  have hmagnitude := (pow_magnitude_le hb).1
  rw [shortest, if_neg hb]
  exact search_eq hb hmagnitude (pow_sub_le hlt hmagnitude)

/-- The coefficient of the shortest decimal ends in no zero, and so is not zero. -/
theorem shortest_coefficient (tie : Tie) (hb : b.significand ≠ 0) (hlt : b.significand < 2 ^ 53) :
    (b.shortest tie).coefficient % 10 ≠ 0 := by
  obtain ⟨c, e, hc, -, -, heq⟩ := shortest_eq tie hb hlt
  rw [heq]
  exact Digits.normalize_coefficient e hc

/-- The coefficient of the shortest decimal fits 64 bits. -/
theorem shortest_coefficient_le (tie : Tie) (hb : b.significand ≠ 0)
    (hlt : b.significand < 2 ^ 53) : (b.shortest tie).coefficient ≤ 10 ^ 18 := by
  obtain ⟨c, e, -, he, hc, heq⟩ := shortest_eq tie hb hlt
  rw [heq]
  refine (Digits.normalize_coefficient_le c e).trans ?_
  have hbelow : 4 * b.significand * b.gridFactor e / b.gridStep e < 10 ^ 18 := by
    have hpow : (10 : ℚ) ^ (b.magnitude + 1) ≤ 10 ^ 18 * 10 ^ e := by
      rw [← zpow_natCast, ← zpow_add₀ (by norm_num)]
      exact zpow_le_zpow_right₀ (by norm_num) (by push_cast; omega)
    have hscale := b.gridScale_pos e
    have hstep : (4 * b.significand : ℕ) * (b.gridFactor e : ℚ) < 10 ^ 18 * b.gridStep e := calc
      _ = b.abs * b.gridScale e := by rw [gridFactor_eq, abs_eq, mul_assoc]
      _ < 10 ^ 18 * 10 ^ e * b.gridScale e := by
        gcongr
        exact (pow_magnitude_le hb).2.trans_le hpow
      _ = 10 ^ 18 * b.gridStep e := by rw [gridStep_eq, mul_assoc]
    have hstep : 4 * b.significand * b.gridFactor e < 10 ^ 18 * b.gridStep e := by
      exact_mod_cast hstep
    exact (Nat.div_lt_iff_lt_mul (b.gridStep_pos e)).mpr hstep
  rcases (onGrid?_cases hc).1 with rfl | rfl
  · exact hbelow.le
  · exact hbelow

/-- The significand of a finite double has at most 53 bits. -/
theorem significand_lt {x : Float} (h : ofFloat? x = some b) : b.significand < 2 ^ 53 := by
  rw [ofFloat?] at h
  have hfraction := Nat.mod_lt x.toBits.toNat (show 0 < Nat.pow 2 52 by decide)
  split at h
  · cases h
  · split at h
    · cases h
      exact hfraction.trans (by decide)
    · cases h
      show 2 ^ 52 + _ < 2 ^ 53
      exact Nat.add_lt_add_left hfraction _

end Binary64

end Remap.Decimal
