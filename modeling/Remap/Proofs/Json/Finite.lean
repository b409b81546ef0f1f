import Remap.Proofs.Decimal.Finite
import Remap.Proofs.Json.Number
import Remap.Proofs.Results
import Remap.Proofs.Value

/-!
# Only finite numbers are read

A significand has at most 64 bits, and the powers of ten that it is divided by are at least one, so
it stays finite. The one multiplication is rejected where it overflows.
-/

namespace Remap

namespace Value

/-- Whether the numbers in a value are finite. -/
def Finite (v : Value) : Prop := ∀ n ∈ v.numbers, n.isFinite = true

variable {items : List Value} {fields : List (String × Value)} {v : Value} {n : Float}

theorem finite_number_iff : (number n).Finite ↔ n.isFinite = true := by
  simp [Finite, numbers]

theorem finite_array_iff : (array items).Finite ↔ ∀ v ∈ items, v.Finite := by
  refine ⟨fun h v hv n hn => h n (mem_numbers_array hv hn), fun h => ?_⟩
  rw [Finite, numbers]
  induction items with
  | nil => exact List.forall_mem_nil _
  | cons v rest ih =>
    intro n hn
    rw [itemNumbers, List.mem_append] at hn
    rcases hn with hn | hn
    · exact h v List.mem_cons_self n hn
    · exact ih (fun w hw => h w (List.mem_cons_of_mem _ hw)) n hn

theorem finite_object_iff : (object fields).Finite ↔ ∀ e ∈ fields, e.2.Finite := by
  refine ⟨fun h e he n hn => h n (mem_numbers_object he hn), fun h => ?_⟩
  rw [Finite, numbers]
  induction fields with
  | nil => exact List.forall_mem_nil _
  | cons e rest ih =>
    intro n hn
    rw [fieldNumbers, List.mem_append] at hn
    rcases hn with hn | hn
    · exact h e List.mem_cons_self n hn
    · exact ih (fun f hf => h f (List.mem_cons_of_mem _ hf)) n hn

theorem Finite.of_get? {key : String} (h : (object fields).Finite)
    (hv : Entries.get? key fields = some v) : v.Finite :=
  finite_object_iff.mp h _ (Entries.mem_of_get? hv)

theorem finite_of_numbers_eq_nil (h : v.numbers = []) : v.Finite := by
  rw [Finite, h]
  exact nofun

/-- Whether the numbers in some values are finite. -/
def AllFinite (vs : List Value) : Prop := ∀ v ∈ vs, v.Finite

end Value

namespace Json

open Decimal

section Numbers

variable {bound : Int} {fuel significand : Nat} {exponent : Int} {negative : Bool} {f g : Float}
  {text rest : List Char}

theorem isAtLeastOne_powerOfTen {k : Nat} (hk : k ≤ 308) :
    isAtLeastOne (powerOfTen k).toModel.unpack = true := by
  have hall : ∀ k ∈ List.range 309, isAtLeastOne (powerOfTen k).toModel.unpack = true := by
    decide +kernel
  exact hall k (List.mem_range.mpr (Nat.lt_succ_of_le hk))

theorem isFinite_powerOfTen {k : Nat} (hk : k ≤ 308) : (powerOfTen k).isFinite = true :=
  isFinite_of_isAtLeastOne (isAtLeastOne_powerOfTen hk)

/-- Each division may add a bit to the bound. -/
theorem isFinite_of_scale? (hf : Below bound f.toModel.unpack) (hlow : 0 ≤ bound)
    (hbound : bound + fuel ≤ 1022) (h : scale? fuel f exponent = some g) : g.isFinite = true := by
  induction fuel generalizing bound f exponent with
  | zero =>
    obtain rfl := Option.some.inj h
    exact hf.isFinite
  | succ fuel ih =>
    rw [scale?] at h
    split at h
    · next hexponent =>
      split at h
      · simp only at h
        split at h
        · cases h
        · next hinf =>
          obtain rfl := Option.some.inj h
          exact isFinite_mul hf.isFinite (isFinite_powerOfTen (by omega)) (by simpa using hinf)
      · obtain rfl := Option.some.inj h
        exact (below_divide hf (isAtLeastOne_powerOfTen hexponent) hlow (by omega)).isFinite
    · split at h
      · obtain rfl := Option.some.inj h
        exact hf.isFinite
      · split at h
        · cases h
        · exact ih (below_divide hf (isAtLeastOne_powerOfTen (Nat.le_refl 308)) hlow (by omega))
            (by omega) (by omega) h

theorem isFinite_of_finish (h : finish negative significand exponent text = .ok (f, rest)) :
    f.isFinite = true := by
  unfold finish at h
  split at h
  · next g hscale =>
    have hg := isFinite_of_scale? (below_toFloat _) (by omega) (by omega) hscale
    cases h
    split
    · exact isFinite_neg hg
    · exact hg
  · cases h

theorem isFinite_of_readExponent
    (h : readExponent negative significand exponent text = .ok (f, rest)) : f.isFinite = true := by
  unfold readExponent at h
  split at h
  split at h
  · cases h
  · split at h
    · split at h
      · split at h
        · cases h
        · cases h
          split <;> rfl
      · exact isFinite_of_finish h
    · cases h

theorem isFinite_of_readTail (h : readTail negative significand exponent text = .ok (f, rest)) :
    f.isFinite = true := by
  cases text with
  | nil => exact isFinite_of_finish h
  | cons c text =>
    rw [readTail] at h
    split at h
    · exact isFinite_of_readExponent h
    · exact isFinite_of_finish h

theorem isFinite_of_readFraction
    (h : readFraction negative significand exponent text = .ok (f, rest)) : f.isFinite = true := by
  unfold readFraction at h
  split at h
  split at h
  · exact isFinite_of_readTail h
  · split at h
    · split at h <;> cases h
    · exact isFinite_of_readTail h

theorem isFinite_of_readNumber (h : readNumber negative text = .ok (f, rest)) :
    f.isFinite = true := by
  unfold readNumber at h
  split at h
  · cases h
  · split at h
    · split at h
      · cases h
      · split at h
        · exact isFinite_of_readFraction h
        · exact isFinite_of_readTail h
    · split at h
      · split at h
        simp only at h
        split at h
        · exact isFinite_of_readFraction h
        · exact isFinite_of_readTail h
      · cases h

end Numbers

mutual

theorem finite_of_readValue : ∀ {fuel room : Nat} {text rest : List Char} {v : Value},
    readValue fuel room text = .ok (v, rest) → v.Finite
  | 0, _, _, _, _, h => by cases h
  | fuel + 1, room, text, rest, v, h => by
    unfold readValue at h
    split at h
    · cases h
    iterate 3
      · obtain rfl := eq_of_readWord h
        exact Value.finite_of_numbers_eq_nil rfl
    · obtain ⟨⟨n, _⟩, hread, heq⟩ := map_eq_ok_iff.mp h
      cases heq
      exact Value.finite_number_iff.mpr (isFinite_of_readNumber hread)
    · obtain ⟨⟨s, _⟩, -, heq⟩ := map_eq_ok_iff.mp h
      cases heq
      exact Value.finite_of_numbers_eq_nil rfl
    · split at h
      · cases h
      · split at h
        · cases h
        · cases h
          exact Value.finite_array_iff.mpr nofun
        · obtain ⟨⟨first, _⟩, hfirst, h⟩ := bind_eq_ok_iff.mp h
          obtain ⟨⟨items, _⟩, hitems, heq⟩ := bind_eq_ok_iff.mp h
          cases heq
          refine Value.finite_array_iff.mpr (finite_of_readItems hitems ?_)
          simpa using finite_of_readValue hfirst
    · split at h
      · cases h
      · split at h
        · cases h
        · cases h
          exact Value.finite_object_iff.mpr nofun
        · obtain ⟨⟨key, _⟩, -, h⟩ := bind_eq_ok_iff.mp h
          obtain ⟨⟨first, _⟩, hfirst, h⟩ := bind_eq_ok_iff.mp h
          obtain ⟨⟨fields, _⟩, hfields, heq⟩ := bind_eq_ok_iff.mp h
          cases heq
          refine Value.finite_object_iff.mpr (finite_of_readFields hfields ?_)
          simpa using finite_of_readValue hfirst
    · split at h
      · obtain ⟨⟨n, _⟩, hread, heq⟩ := map_eq_ok_iff.mp h
        cases heq
        exact Value.finite_number_iff.mpr (isFinite_of_readNumber hread)
      · cases h

theorem finite_of_readItems : ∀ {fuel room : Nat} {read vs : List Value} {text rest : List Char},
    readItems fuel room read text = .ok (vs, rest) → (∀ v ∈ read, v.Finite) → ∀ v ∈ vs, v.Finite
  | 0, _, _, _, _, _, h, _ => by cases h
  | fuel + 1, room, read, vs, text, rest, h, hread => by
    unfold readItems at h
    split at h
    · cases h
    · cases h
      exact fun v hv => hread v (List.mem_reverse.mp hv)
    · split at h
      · cases h
      · cases h
      · obtain ⟨⟨item, _⟩, hitem, h⟩ := bind_eq_ok_iff.mp h
        exact finite_of_readItems h
          (List.forall_mem_cons.mpr ⟨finite_of_readValue hitem, hread⟩)
    · cases h

theorem finite_of_readFields : ∀ {fuel room : Nat} {read es : List (String × Value)}
    {text rest : List Char}, readFields fuel room read text = .ok (es, rest) →
      (∀ e ∈ read, e.2.Finite) → ∀ e ∈ es, e.2.Finite
  | 0, _, _, _, _, _, h, _ => by cases h
  | fuel + 1, room, read, es, text, rest, h, hread => by
    unfold readFields at h
    split at h
    · cases h
    · cases h
      exact hread
    · split at h
      · cases h
      · obtain ⟨⟨key, _⟩, -, h⟩ := bind_eq_ok_iff.mp h
        obtain ⟨⟨value, _⟩, hvalue, h⟩ := bind_eq_ok_iff.mp h
        refine finite_of_readFields h fun e he => ?_
        rcases Entries.mem_put he with rfl | he
        · exact finite_of_readValue hvalue
        · exact hread e he
    · cases h

end

/-- What is read has only finite numbers. -/
theorem finite_of_read {text : String} {v : Value} (h : read text = .ok v) : v.Finite := by
  obtain ⟨⟨w, rest⟩, hvalue, h⟩ := bind_eq_ok_iff.mp (read_eq_ok_iff.mp h)
  simp only at h
  split at h
  · cases h
    exact finite_of_readValue hvalue
  · cases h

end Json

end Remap
