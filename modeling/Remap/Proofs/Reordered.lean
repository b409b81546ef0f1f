import Mathlib.Data.List.Nodup
import Remap.Proofs.Value

/-!
# Values that are equal up to the order of keys

The order of keys is all in which two such values may differ: they have the same scalars, and arrays
of the same length, at the same places. Values with unique keys are related in this way to
themselves, and only such values are related at all.
-/

namespace Remap.Value

/-- Whether two values are equal up to the order of object keys. -/
inductive Reordered : Value → Value → Prop
  | scalar {v : Value} (h : v.isScalar = true) : Reordered v v
  | array {xs ys : List Value} (hlength : xs.length = ys.length)
      (h : ∀ (i : Nat) x y, xs[i]? = some x → ys[i]? = some y → Reordered x y) :
      Reordered (.array xs) (.array ys)
  | object {xs ys : List (String × Value)} (hkeys : (Entries.keys xs).Nodup)
      (hperm : (Entries.keys xs).Perm (Entries.keys ys))
      (h : ∀ name x y, Entries.get? name xs = some x → Entries.get? name ys = some y →
        Reordered x y) :
      Reordered (.object xs) (.object ys)

theorem Distinct.put {fields : List (String × Value)} (h : (Value.object fields).Distinct)
    (name : String) {v : Value} (hv : v.Distinct) :
    (Value.object (Entries.put name v fields)).Distinct := by
  refine .object (Entries.keys_put_nodup v h.keys_nodup) fun e he => ?_
  rcases Entries.mem_put he with rfl | he
  · exact hv
  · exact h.of_mem_fields he

theorem Distinct.reordered {v : Value} (h : v.Distinct) : v.Reordered v := by
  induction h with
  | scalar h => exact .scalar h
  | array _ ih =>
    refine .array rfl fun i x y hx hy => ?_
    rw [hx] at hy
    cases hy
    exact ih x (List.mem_of_getElem? hx)
  | object hkeys _ ih =>
    refine .object hkeys (.refl _) fun name x y hx hy => ?_
    rw [hx] at hy
    cases hy
    exact ih _ (Entries.mem_of_get? hx)

namespace Reordered

variable {a b c : Value}

theorem symm (h : a.Reordered b) : b.Reordered a := by
  induction h with
  | scalar h => exact .scalar h
  | array hlength _ ih => exact .array hlength.symm fun i x y hx hy => ih i y x hy hx
  | object hkeys hperm _ ih =>
    exact .object (hperm.nodup_iff.mp hkeys) hperm.symm fun name x y hx hy => ih name y x hy hx

theorem trans (hab : a.Reordered b) (hbc : b.Reordered c) : a.Reordered c := by
  induction hab generalizing c with
  | scalar => exact hbc
  | @array xs ys hlength _ ih =>
    cases hbc with
    | scalar h => cases h
    | @array _ zs hlength' h =>
      refine .array (hlength.trans hlength') fun i x z hx hz => ?_
      obtain ⟨hi, -⟩ := List.getElem?_eq_some_iff.mp hx
      have hy := List.getElem?_eq_getElem (hlength ▸ hi : i < ys.length)
      exact ih i x _ hx hy (h i _ z hy hz)
  | @object xs ys hkeys hperm _ ih =>
    cases hbc with
    | scalar h => cases h
    | @object _ zs _ hperm' h =>
      refine .object hkeys (hperm.trans hperm') fun name x z hx hz => ?_
      obtain ⟨y, hy⟩ := Entries.get?_of_mem_keys (hperm.mem_iff.mp (Entries.mem_keys_of_get? hx))
      exact ih name x y hx hy (h name y z hy hz)

theorem left (h : a.Reordered b) : a.Distinct := by
  induction h with
  | scalar h => exact .scalar h
  | @array xs ys hlength _ ih =>
    refine .array fun v hv => ?_
    obtain ⟨i, hi⟩ := List.getElem?_of_mem hv
    obtain ⟨hlt, -⟩ := List.getElem?_eq_some_iff.mp hi
    exact ih i v _ hi (List.getElem?_eq_getElem (hlength ▸ hlt : i < ys.length))
  | @object xs ys hkeys hperm _ ih =>
    refine .object hkeys fun e he => ?_
    have hx := Entries.get?_of_mem hkeys he
    obtain ⟨y, hy⟩ := Entries.get?_of_mem_keys (hperm.mem_iff.mp (Entries.mem_keys_of_get? hx))
    exact ih e.1 e.2 y hx hy

theorem right (h : a.Reordered b) : b.Distinct := h.symm.left

theorem isVacant_eq (h : a.Reordered b) : a.isVacant = b.isVacant := by
  cases h with
  | scalar | array => rfl
  | @object xs ys _ hperm _ =>
    have hlength := hperm.length_eq
    cases xs <;> cases ys <;> simp_all [isVacant, Entries.keys]

section Items

variable {xs ys zs ws : List Value}

theorem length_eq (h : (Value.array xs).Reordered (.array ys)) : xs.length = ys.length := by
  cases h with
  | scalar h => cases h
  | array hlength _ => exact hlength

theorem getD_getElem? (h : (Value.array xs).Reordered (.array ys)) (i : Nat) :
    ((xs[i]?).getD .null).Reordered ((ys[i]?).getD .null) := by
  cases h with
  | scalar h => cases h
  | array hlength h =>
    by_cases hi : i < xs.length
    · have hx := List.getElem?_eq_getElem hi
      have hy := List.getElem?_eq_getElem (hlength ▸ hi : i < ys.length)
      rw [hx, hy]
      exact h i _ _ hx hy
    · have hle := Nat.le_of_not_lt hi
      rw [List.getElem?_eq_none hle, List.getElem?_eq_none (hlength ▸ hle)]
      exact .scalar rfl

theorem append (h : (Value.array xs).Reordered (.array ys))
    (h' : (Value.array zs).Reordered (.array ws)) :
    (Value.array (xs ++ zs)).Reordered (.array (ys ++ ws)) := by
  have hlength := h.length_eq
  cases h with
  | scalar h => cases h
  | array _ h =>
    cases h' with
    | scalar h => cases h
    | array hlength' h' =>
      refine .array (by rw [List.length_append, List.length_append, hlength, hlength']) ?_
      intro i x y hx hy
      by_cases hi : i < xs.length
      · rw [List.getElem?_append_left hi] at hx
        rw [List.getElem?_append_left (hlength ▸ hi)] at hy
        exact h i x y hx hy
      · have hle := Nat.le_of_not_lt hi
        rw [List.getElem?_append_right hle] at hx
        rw [List.getElem?_append_right (hlength ▸ hle), ← hlength] at hy
        exact h' _ x y hx hy

theorem set (h : (Value.array xs).Reordered (.array ys)) (i : Nat) (hab : a.Reordered b) :
    (Value.array (xs.set i a)).Reordered (.array (ys.set i b)) := by
  cases h with
  | scalar h => cases h
  | array hlength h =>
    refine .array (by rw [List.length_set, List.length_set, hlength]) fun j x y hx hy => ?_
    by_cases hj : i = j
    · subst hj
      obtain ⟨hi, -⟩ := List.getElem?_eq_some_iff.mp hx
      rw [List.length_set] at hi
      rw [List.getElem?_set_self hi] at hx
      rw [List.getElem?_set_self (hlength ▸ hi)] at hy
      cases hx
      cases hy
      exact hab
    · rw [List.getElem?_set_ne hj] at hx hy
      exact h j x y hx hy

end Items

section Entries

variable {xs ys : List (String × Value)}

theorem getD_get? (h : (Value.object xs).Reordered (.object ys)) (name : String) :
    ((Entries.get? name xs).getD .null).Reordered ((Entries.get? name ys).getD .null) := by
  cases h with
  | scalar h => cases h
  | object _ hperm h =>
    cases hx : Entries.get? name xs with
    | none =>
      rw [Entries.get?_eq_none_iff, hperm.mem_iff, ← Entries.get?_eq_none_iff] at hx
      rw [hx]
      exact .scalar rfl
    | some x =>
      obtain ⟨y, hy⟩ := Entries.get?_of_mem_keys (hperm.mem_iff.mp (Entries.mem_keys_of_get? hx))
      rw [hy]
      exact h name x y hx hy

theorem put (h : (Value.object xs).Reordered (.object ys)) (name : String) (hab : a.Reordered b) :
    (Value.object (Entries.put name a xs)).Reordered (.object (Entries.put name b ys)) := by
  cases h with
  | scalar h => cases h
  | object hkeys hperm h =>
    have hkeys' := hperm.nodup_iff.mp hkeys
    refine .object (Entries.keys_put_nodup a hkeys) ?_ fun other x y hx hy => ?_
    · refine (List.perm_ext_iff_of_nodup (Entries.keys_put_nodup a hkeys)
        (Entries.keys_put_nodup b hkeys')).mpr fun other => ?_
      rw [Entries.mem_keys_put_iff, Entries.mem_keys_put_iff, hperm.mem_iff]
    · by_cases hother : other = name
      · subst hother
        rw [Entries.get?_put_self] at hx hy
        cases hx
        cases hy
        exact hab
      · rw [Entries.get?_put_of_ne hother] at hx hy
        exact h other x y hx hy

/-- Objects in which the same is found under every key differ in the order of keys alone. -/
theorem of_get?_eq (hxs : (Value.object xs).Distinct) (hys : (Value.object ys).Distinct)
    (h : ∀ name, Entries.get? name xs = Entries.get? name ys) :
    (Value.object xs).Reordered (.object ys) := by
  refine .object hxs.keys_nodup ?_ fun name x y hx hy => ?_
  · refine (List.perm_ext_iff_of_nodup hxs.keys_nodup hys.keys_nodup).mpr fun name => ?_
    rw [← not_iff_not, ← Entries.get?_eq_none_iff, ← Entries.get?_eq_none_iff, h]
  · rw [h, hy] at hx
    cases hx
    exact (hys.of_mem_fields (Entries.mem_of_get? hy)).reordered

/-- Entries of two names may be put into an object in either order. -/
theorem put_comm {m n : String} (hne : m ≠ n) (hxs : (Value.object xs).Distinct)
    (ha : a.Distinct) (hb : b.Distinct) :
    (Value.object (Entries.put n b (Entries.put m a xs))).Reordered
      (.object (Entries.put m a (Entries.put n b xs))) := by
  refine of_get?_eq ((hxs.put m ha).put n hb) ((hxs.put n hb).put m ha) fun name => ?_
  by_cases hm : name = m
  · subst hm
    rw [Entries.get?_put_of_ne hne, Entries.get?_put_self, Entries.get?_put_self]
  · by_cases hn : name = n
    · subst hn
      rw [Entries.get?_put_self, Entries.get?_put_of_ne hm, Entries.get?_put_self]
    · rw [Entries.get?_put_of_ne hn, Entries.get?_put_of_ne hm, Entries.get?_put_of_ne hm,
        Entries.get?_put_of_ne hn]

end Entries

end Reordered

end Remap.Value
