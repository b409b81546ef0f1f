import Mathlib.Data.List.Induction
import Remap.Decimal.Layout
import Remap.Decimal.Literal

/-!
# Decimal notation

The digits of a natural number are read as the number, and finite doubles are written with digits
and a few marks.
-/

namespace Remap.Decimal

theorem isDigit_eq (c : Char) : isDigit c = c.isDigit := by
  rw [isDigit, Char.isDigit, Bool.decide_and]
  rfl

theorem isDigit_iff {c : Char} : isDigit c = true ↔ 48 ≤ c.toNat ∧ c.toNat ≤ 57 := by
  simp [isDigit, Char.le_def, UInt32.le_iff_toNat_le]

theorem ofDigits_toDigits (n : Nat) : ofDigits (Nat.toDigits 10 n) = n :=
  Nat.ofDigitChars_ten_toDigits

theorem isDigit_of_mem_toDigits {n : Nat} {c : Char} (h : c ∈ Nat.toDigits 10 n) :
    isDigit c = true := by
  rw [isDigit_eq]
  exact Nat.isDigit_of_mem_toDigits (by decide) (by decide) h

namespace Layout

theorem digitChar_eq : ∀ d < 10, digitChar d = d.digitChar := by decide

theorem map_digitChar {n : Nat} (hn : n ≠ 0) :
    (Digits.ofNat n).map digitChar = Nat.toDigits 10 n := by
  have digits (n : Nat) (acc : List Nat) (hn : n ≠ 0) :
      (Digits.ofNat.go n acc).map digitChar = Nat.toDigits 10 n ++ acc.map digitChar := by
    fun_induction Digits.ofNat.go n acc with
    | case1 => exact absurd rfl hn
    | case2 n acc _ ih =>
      by_cases hlast : n / 10 = 0
      · have hlt : n < 10 := by omega
        rw [hlast, Digits.ofNat.go, if_pos rfl, Nat.mod_eq_of_lt hlt, Nat.toDigits_of_lt_base hlt,
          List.map_cons, digitChar_eq n hlt, List.singleton_append]
      · have hge : ¬ n < 10 := by omega
        rw [ih hlast, Nat.toDigits_eq_if (n := n) (by decide), if_neg hge, List.map_cons,
          digitChar_eq _ (Nat.mod_lt n (by decide)), List.append_assoc, List.singleton_append]
  rw [Digits.ofNat, digits n [] hn, List.map_nil, List.append_nil]

/-- Whole numbers are written in decimal notation. -/
theorem natText_eq (n : Nat) : natText n = Nat.toDigits 10 n := by
  unfold natText
  split
  · next hzero => rw [hzero]; rfl
  · next hn => exact map_digitChar hn

theorem isDigit_of_mem_map_digitChar {n : Nat} {c : Char}
    (h : c ∈ (Digits.ofNat n).map digitChar) : isDigit c = true := by
  by_cases hn : n = 0
  · rw [hn, Digits.ofNat, Digits.ofNat.go, if_pos rfl] at h
    nomatch h
  · rw [map_digitChar hn] at h
    exact isDigit_of_mem_toDigits h

theorem digitValue_lt {c : Char} (hc : isDigit c = true) : digitValue c < 10 := by
  have hbounds := isDigit_iff.mp hc
  rw [digitValue]
  omega

theorem digitChar_digitValue {c : Char} (hc : isDigit c = true) : (digitValue c).digitChar = c := by
  have hlow := (isDigit_iff.mp hc).1
  rw [← digitChar_eq _ (digitValue_lt hc), digitChar, digitValue, Nat.add_sub_cancel' hlow,
    Char.ofNat_toNat]

/-- Digits that do not start with a zero are written for their value, which is not nought. -/
theorem natText_ofDigits {c : Char} {digits : List Char} (hzero : c ≠ '0')
    (hdigits : ∀ d ∈ c :: digits, isDigit d = true) :
    0 < ofDigits (c :: digits) ∧ natText (ofDigits (c :: digits)) = c :: digits := by
  have hc := hdigits c List.mem_cons_self
  induction digits using List.reverseRecOn with
  | nil =>
    have hvalue : ofDigits [c] = digitValue c := Nat.zero_add _
    have hne : digitValue c ≠ 0 := by
      intro h
      have hchar := digitChar_digitValue hc
      rw [h] at hchar
      exact hzero hchar.symm
    rw [hvalue, natText_eq, Nat.toDigits_of_lt_base (digitValue_lt hc), digitChar_digitValue hc]
    exact ⟨Nat.pos_of_ne_zero hne, rfl⟩
  | append_singleton digits d ih =>
    rw [← List.cons_append] at hdigits ⊢
    obtain ⟨hfront, hd⟩ := List.forall_mem_append.mp hdigits
    obtain ⟨hpos, htext⟩ := ih hfront
    have hdigit := List.forall_mem_singleton.mp hd
    have hlt := digitValue_lt hdigit
    have hvalue : ofDigits (c :: digits ++ [d]) = 10 * ofDigits (c :: digits) + digitValue d := by
      rw [ofDigits, List.foldl_append]
      rfl
    have hdiv : (10 * ofDigits (c :: digits) + digitValue d) / 10 = ofDigits (c :: digits) := by
      omega
    have hmod : (10 * ofDigits (c :: digits) + digitValue d) % 10 = digitValue d := by
      omega
    rw [natText_eq] at htext ⊢
    rw [hvalue, Nat.toDigits_eq_if (by decide), if_neg (by omega), hdiv, hmod, htext,
      digitChar_digitValue hdigit]
    exact ⟨by omega, rfl⟩

/-- What numbers are written with: digits, a point, the mark of an exponent and signs. -/
def IsMark (c : Char) : Prop := isDigit c = true ∨ c ∈ ['.', 'e', '+', '-']

/-- Whether a text holds nothing that no number is written with. -/
def Marked (text : List Char) : Prop := ∀ c ∈ text, IsMark c

theorem Marked.append {a b : List Char} (ha : Marked a) (hb : Marked b) : Marked (a ++ b) :=
  List.forall_mem_append.mpr ⟨ha, hb⟩

theorem Marked.cons {c : Char} {text : List Char} (hc : IsMark c) (h : Marked text) :
    Marked (c :: text) :=
  List.forall_mem_cons.mpr ⟨hc, h⟩

theorem marked_of_isDigit {text : List Char} (h : ∀ c ∈ text, isDigit c = true) : Marked text :=
  fun c hc => .inl (h c hc)

theorem marked_natText (n : Nat) : Marked (natText n) :=
  marked_of_isDigit fun _ hc => isDigit_of_mem_toDigits (natText_eq n ▸ hc)

theorem marked_place (l : Layout) {digits : List Char} (leading : Int)
    (hdigits : ∀ c ∈ digits, isDigit c = true) : Marked (l.place digits leading) := by
  have hall : Marked digits := marked_of_isDigit hdigits
  have hfront (n : Nat) : Marked (digits.take n) := fun c hc => hall c (List.mem_of_mem_take hc)
  have hback (n : Nat) : Marked (digits.drop n) := fun c hc => hall c (List.mem_of_mem_drop hc)
  have hzeros (n : Nat) : Marked (List.replicate n '0') :=
    marked_of_isDigit fun c hc => List.eq_of_mem_replicate hc ▸ rfl
  have hzero : IsMark '0' := .inl rfl
  have hpoint : IsMark '.' := .inr (by decide)
  unfold place
  dsimp only
  split
  · refine ((hfront 1).append ?_).append (.cons (.inr (by decide)) (.cons ?_ (marked_natText _)))
    · split
      · exact nofun
      · exact .cons hpoint (hback 1)
    · split <;> exact .inr (by decide)
  · split
    · refine (hall.append (hzeros _)).append ?_
      split
      · exact .cons hpoint (.cons hzero nofun)
      · exact nofun
    · split
      · exact (hfront _).append (.cons hpoint (hback _))
      · exact .cons hzero (.cons hpoint ((hzeros _).append hall))

end Layout

/-- A finite number is written with digits and marks. -/
theorem marked_canonicalText {x : Float} {b : Binary64} (hx : Binary64.ofFloat? x = some b) :
    Layout.Marked (canonicalText x).toList := by
  have hplace (n : Nat) (leading : Int) :
      Layout.Marked (Layout.canonical.place ((Digits.ofNat n).map Layout.digitChar) leading) :=
    Layout.marked_place _ _ fun c hc => Layout.isDigit_of_mem_map_digitChar hc
  simp only [canonicalText, hx]
  split
  · exact .cons (.inl rfl) nofun
  · rw [String.toList_ofList, Layout.write]
    split
    · exact .cons (.inr (by decide)) (hplace _ _)
    · exact hplace _ _

end Remap.Decimal
