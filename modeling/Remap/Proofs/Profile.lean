import Mathlib
import Remap.Profile

/-!
# What the times of runs come to

The rank of a percentile is the least number of values that are such a share of all of them
(`rank_le_iff`), and in a sorted list the values at or below a bound are the first ones
(`lt_countP_iff`). The main statement is that a summary of times is what its fields are called, in
the order that this implies, and does not depend on the order of the times (`ofTimes_ordered`).
-/

namespace Remap.Profile

variable {percent count bound k : Nat} {values times other : List Nat}

/-! ## Percentiles -/

/-- The rank of a percentile is the least number of values, not zero, that are such a share of
all. -/
theorem rank_le_iff : rank percent count ≤ k ↔ 0 < k ∧ percent * count ≤ 100 * k := by
  unfold rank
  omega

theorem rank_pos (percent count : Nat) : 0 < rank percent count :=
  Nat.lt_of_lt_of_le Nat.one_pos (Nat.le_max_left ..)

theorem rank_le (hpercent : percent ≤ 100) (hcount : 0 < count) : rank percent count ≤ count :=
  rank_le_iff.mpr ⟨hcount, Nat.mul_le_mul_right count hpercent⟩

/-- In a sorted list the values at or below a bound are the first ones. -/
theorem lt_countP_iff (hsorted : values.Pairwise (· ≤ ·)) (hk : k < values.length) :
    k < values.countP (· ≤ bound) ↔ values[k] ≤ bound := by
  induction values generalizing k with
  | nil => cases hk
  | cons v values ih =>
    obtain ⟨hv, hvalues⟩ := List.pairwise_cons.mp hsorted
    by_cases hbound : v ≤ bound
    · have hfirst : (v :: values).countP (· ≤ bound) = values.countP (· ≤ bound) + 1 :=
        List.countP_cons_of_pos (decide_eq_true hbound)
      rw [hfirst]
      cases k with
      | zero => exact iff_of_true (Nat.succ_pos _) hbound
      | succ k => exact Nat.succ_lt_succ_iff.trans (ih hvalues (Nat.lt_of_succ_lt_succ hk))
    · -- the others are no less than the first, and so none is at or below the bound
      have habove : ∀ w ∈ v :: values, ¬w ≤ bound :=
        List.forall_mem_cons.mpr ⟨hbound, fun w hw hle => hbound ((hv w hw).trans hle)⟩
      have hnone : (v :: values).countP (· ≤ bound) = 0 :=
        List.countP_eq_zero.mpr fun w hw => by simpa using habove w hw
      rw [hnone]
      exact iff_of_false (Nat.not_lt_zero k) (habove _ (List.getElem_mem hk))

theorem getElem?_nearestRank (hpercent : percent ≤ 100) (hne : values ≠ []) :
    values[rank percent values.length - 1]? = some (nearestRank values percent) := by
  have hrank := rank_le hpercent (List.length_pos_iff.mpr hne)
  have hpos := rank_pos percent values.length
  rw [nearestRank, List.getD_eq_getElem?_getD, List.getElem?_eq_getElem (by omega)]
  rfl

/-- **The nearest rank** of a percentile in a sorted list is the least of its values such that at
least that share of the values are at or below it. -/
theorem isLeast_nearestRank (hsorted : values.Pairwise (· ≤ ·)) (hpercent : percent ≤ 100)
    (hne : values ≠ []) :
    IsLeast {t | t ∈ values ∧ percent * values.length ≤ 100 * values.countP (· ≤ t)}
      (nearestRank values percent) := by
  have hget := getElem?_nearestRank hpercent hne
  obtain ⟨hk, hvalue⟩ := List.getElem?_eq_some_iff.mp hget
  rw [← hvalue]
  have hpos := rank_pos percent values.length
  constructor
  · refine ⟨List.getElem_mem hk, (rank_le_iff.mp ?_).2⟩
    have hcount := (lt_countP_iff hsorted hk).mpr (Nat.le_refl _)
    omega
  · rintro t ⟨ht, hshare⟩
    have hcount : 0 < values.countP (· ≤ t) := List.countP_pos_iff.mpr ⟨t, ht, by simp⟩
    have hrank := rank_le_iff.mpr ⟨hcount, hshare⟩
    exact (lt_countP_iff hsorted hk).mp (by omega)

/-! ## Means -/

theorem summarize_mean (hne : times ≠ []) : (summarize times).mean = times.sum / times.length := by
  show times.foldl (· + ·) 0 / max 1 times.length = _
  rw [← List.sum_eq_foldl, Nat.max_eq_right (List.length_pos_iff.mpr hne)]

/-- A mean lies between any bounds of the values. -/
theorem mean_between {low high : Nat} (hne : times ≠ []) (hlow : ∀ t ∈ times, low ≤ t)
    (hhigh : ∀ t ∈ times, t ≤ high) :
    low ≤ (summarize times).mean ∧ (summarize times).mean ≤ high := by
  have hpos := List.length_pos_iff.mpr hne
  rw [summarize_mean hne]
  constructor
  · rw [Nat.le_div_iff_mul_le hpos, Nat.mul_comm]
    exact List.card_nsmul_le_sum times low hlow
  · exact Nat.div_le_of_le_mul (List.sum_le_card_nsmul times high hhigh)

/-! ## Least and greatest values -/

theorem isLeast_headD (hsorted : values.Pairwise (· ≤ ·)) (hne : values ≠ []) :
    IsLeast {t | t ∈ values} (values.headD 0) := by
  cases values with
  | nil => exact absurd rfl hne
  | cons v values =>
    refine ⟨List.mem_cons_self, fun t ht => ?_⟩
    rcases List.mem_cons.mp ht with rfl | ht
    · exact Nat.le_refl _
    · exact List.rel_of_pairwise_cons hsorted ht

theorem isGreatest_getLastD (hsorted : values.Pairwise (· ≤ ·)) (hne : values ≠ []) :
    IsGreatest {t | t ∈ values} (values.getLastD 0) := by
  obtain ⟨front, last, rfl⟩ : ∃ front last, values = front ++ [last] :=
    ⟨_, _, (List.dropLast_concat_getLast hne).symm⟩
  rw [List.getLastD_concat]
  refine ⟨List.mem_append_right _ (List.mem_singleton_self last), fun t ht => ?_⟩
  rcases List.mem_append.mp ht with ht | ht
  · exact (List.pairwise_append.mp hsorted).2.2 t ht last (List.mem_singleton_self last)
  · exact Nat.le_of_eq (List.mem_singleton.mp ht)

/-! ## Summaries -/

theorem sorted_perm (times : List Nat) : times.mergeSort.Perm times := List.mergeSort_perm ..

theorem sorted_pairwise (times : List Nat) : times.mergeSort.Pairwise (· ≤ ·) :=
  List.pairwise_mergeSort' (· ≤ ·) times

theorem sorted_ne_nil (hne : times ≠ []) : times.mergeSort ≠ [] :=
  fun hnil => hne (List.nil_perm.mp (hnil ▸ sorted_perm times))

theorem isLeast_least (hne : times ≠ []) : IsLeast {t | t ∈ times} (summarize times).least := by
  have h := isLeast_headD (sorted_pairwise times) (sorted_ne_nil hne)
  simp only [(sorted_perm times).mem_iff] at h
  exact h

theorem isGreatest_greatest (hne : times ≠ []) :
    IsGreatest {t | t ∈ times} (summarize times).greatest := by
  have h := isGreatest_getLastD (sorted_pairwise times) (sorted_ne_nil hne)
  simp only [(sorted_perm times).mem_iff] at h
  exact h

theorem isLeast_percentile95 (hne : times ≠ []) :
    IsLeast {t | t ∈ times ∧ 95 * times.length ≤ 100 * times.countP (· ≤ t)}
      (summarize times).percentile95 := by
  have h := isLeast_nearestRank (sorted_pairwise times) (by decide : 95 ≤ 100) (sorted_ne_nil hne)
  simp only [(sorted_perm times).mem_iff, (sorted_perm times).length_eq,
    (sorted_perm times).countP_eq] at h
  exact h

theorem getElem?_percentile95 (hne : times ≠ []) :
    times.mergeSort[rank 95 times.length - 1]? = some (summarize times).percentile95 := by
  have h := getElem?_nearestRank (by decide : 95 ≤ 100) (sorted_ne_nil hne)
  rwa [(sorted_perm times).length_eq] at h

theorem summarize_perm (h : other.Perm times) : summarize other = summarize times := by
  have hsorted : other.mergeSort = times.mergeSort := by
    have hperm := (sorted_perm other).trans (h.trans (sorted_perm times).symm)
    exact hperm.eq_of_pairwise' (sorted_pairwise other) (sorted_pairwise times)
  rw [summarize, summarize, hsorted, ← List.sum_eq_foldl, ← List.sum_eq_foldl, h.sum_eq,
    h.length_eq]

/-- Times that fit a word come to a sum that fits two words. -/
theorem sum_lt_of_forall_lt {size : Nat} (htimes : ∀ t ∈ times, t < size)
    (hlength : times.length < size) : times.sum < size * size :=
  calc times.sum
    _ ≤ times.length * size := List.sum_le_card_nsmul times size fun t ht => Nat.le_of_lt (htimes t ht)
    _ < size * size := Nat.mul_lt_mul_of_pos_right hlength (Nat.zero_lt_of_lt hlength)

/-- **A summary of times is in order**, whatever the order of the times. The place of the
percentile is one of the sorted times, and its value is the least time such that at least 95
percent of the times are at or below it. The mean and the percentile lie between the least and the
greatest time. If the times and the product for the rank fit a word, then the sum fits two words and
the mean fits one. -/
theorem ofTimes_ordered {times : List Nat} (hne : times ≠ []) (compileTime failedRuns : Nat) :
    let report := Report.ofTimes compileTime times failedRuns
    let s := report.summary
    times.mergeSort[rank 95 times.length - 1]? = some s.percentile95 ∧
      IsLeast {t | t ∈ times ∧ 95 * times.length ≤ 100 * times.countP (· ≤ t)} s.percentile95 ∧
      IsLeast {t | t ∈ times} s.least ∧ IsGreatest {t | t ∈ times} s.greatest ∧
      s.mean = times.sum / times.length ∧
      (s.least ≤ s.mean ∧ s.mean ≤ s.greatest) ∧
      (s.least ≤ s.percentile95 ∧ s.percentile95 ≤ s.greatest) ∧
      (∀ other, other.Perm times → Report.ofTimes compileTime other failedRuns = report) ∧
      ((∀ t ∈ times, t < UInt64.size) → 95 * times.length < UInt64.size →
        times.sum < UInt64.size * UInt64.size ∧ s.mean < UInt64.size) := by
  intro report s
  have hleast : IsLeast {t | t ∈ times} s.least := isLeast_least hne
  have hgreatest : IsGreatest {t | t ∈ times} s.greatest := isGreatest_greatest hne
  have hpercentile : IsLeast _ s.percentile95 := isLeast_percentile95 hne
  have hmean : s.least ≤ s.mean ∧ s.mean ≤ s.greatest :=
    mean_between hne (fun _ ht => hleast.2 ht) (fun _ ht => hgreatest.2 ht)
  refine ⟨getElem?_percentile95 hne, hpercentile, hleast, hgreatest, summarize_mean hne, hmean,
    ⟨hleast.2 hpercentile.1.1, hgreatest.2 hpercentile.1.1⟩, fun other hother => ?_,
    fun hwords hlength => ⟨?_, ?_⟩⟩
  · show Report.ofTimes compileTime other failedRuns = Report.ofTimes compileTime times failedRuns
    rw [Report.ofTimes, Report.ofTimes, summarize_perm hother, hother.length_eq]
  · exact sum_lt_of_forall_lt hwords (by omega)
  · exact hmean.2.trans_lt (hwords _ hgreatest.1)

/-- Of twenty times from the greatest to the least, all but one are at or below the percentile. -/
theorem ofTimes_ordered_twenty :
    let times := (List.range' 1 20).reverse
    let report := Report.ofTimes 5 times 1
    times ≠ [] ∧ report.summary.percentile95 = 19 ∧
      IsLeast {t | t ∈ times ∧ 95 * times.length ≤ 100 * times.countP (· ≤ t)} 19 ∧
      report.summary.least ≤ report.summary.mean ∧
      report.summary.mean ≤ report.summary.greatest ∧
      Report.ofTimes 5 (List.range' 1 20) 1 = report ∧
      times.sum < UInt64.size * UInt64.size ∧ report.summary.mean < UInt64.size := by
  intro times report
  have hne : times ≠ [] := by decide
  have hvalue : report.summary.percentile95 = 19 := by cbv
  obtain ⟨-, hpercentile, -, -, -, ⟨hleast, hgreatest⟩, -, hperm, hwords⟩ :=
    ofTimes_ordered hne 5 1
  exact ⟨hne, hvalue, hvalue ▸ hpercentile, hleast, hgreatest,
    hperm _ (List.reverse_perm _).symm, hwords (by decide) (by decide)⟩

end Remap.Profile
