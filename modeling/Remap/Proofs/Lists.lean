import Mathlib.Data.List.Forall2
import Mathlib.Data.List.Induction
import Mathlib.Data.List.TakeDrop
import Mathlib.Data.List.TakeWhile

/-!
# Lists that are related entry by entry, that are cut in two, and that lose what comes again
-/

namespace Remap

variable {α β : Type} {R S : α → β → Prop} {xs : List α}

theorem forall₂_imp_of_mem {ys : List β} (h : List.Forall₂ R xs ys)
    (himp : ∀ x ∈ xs, ∀ {y}, R x y → S x y) : List.Forall₂ S xs ys :=
  ((List.forall₂_and_left xs ys).mpr ⟨himp, h⟩).imp fun _ _ ⟨himp, hxy⟩ => himp hxy

theorem forall₂_of_forall_exists (h : ∀ x ∈ xs, ∃ y, R x y) : ∃ ys, List.Forall₂ R xs ys := by
  induction xs with
  | nil => exact ⟨[], .nil⟩
  | cons x xs ih =>
    obtain ⟨y, hy⟩ := h x List.mem_cons_self
    obtain ⟨ys, hys⟩ := ih fun z hz => h z (List.mem_cons_of_mem _ hz)
    exact ⟨y :: ys, .cons hy hys⟩

theorem forall₂_getElem? {ys : List β} (h : List.Forall₂ R xs ys) {i : Nat} {y : β}
    (hy : ys[i]? = some y) : ∃ x, xs[i]? = some x ∧ R x y := by
  induction h generalizing i with
  | nil => nomatch hy
  | @cons x _ _ _ hxy _ ih =>
    cases i with
    | zero => cases hy; exact ⟨x, rfl, hxy⟩
    | succ i => exact ih hy

/-- Each entry of the one list is related to an entry of the other. -/
theorem exists_of_mem_forall₂ {ys : List β} (h : List.Forall₂ R xs ys) {x : α} (hx : x ∈ xs) :
    ∃ y ∈ ys, R x y := by
  obtain ⟨i, hi⟩ := List.getElem?_of_mem hx
  obtain ⟨y, hy, hxy⟩ := forall₂_getElem? h.flip hi
  exact ⟨y, List.mem_of_getElem? hy, hxy⟩

/-- Searches over related lists have the same result if related entries bring up the same. -/
theorem find?_filterMap_of_forall₂ {γ : Type} {ys : List β} (h : List.Forall₂ R xs ys)
    {f : α → Option γ} {g : β → Option γ} {p : γ → Bool}
    (hfg : ∀ x ∈ xs, ∀ y ∈ ys, R x y → (f x).filter p = (g y).filter p) :
    (xs.filterMap f).find? p = (ys.filterMap g).find? p := by
  have cons {δ : Type} (f : δ → Option γ) (x : δ) (xs : List δ) :
      ((x :: xs).filterMap f).find? p = ((f x).filter p).or ((xs.filterMap f).find? p) := by
    cases hx : f x with
    | none => rw [List.filterMap_cons_none hx]; rfl
    | some c =>
      rw [List.filterMap_cons_some hx, List.find?_cons, Option.filter_some]
      cases p c <;> rfl
  induction h with
  | nil => rfl
  | cons hxy _ ih =>
    rw [cons, cons, hfg _ List.mem_cons_self _ List.mem_cons_self hxy]
    rw [ih fun x hx y hy => hfg x (List.mem_cons_of_mem _ hx) y (List.mem_cons_of_mem _ hy)]

/-- Where every entry leaves something, no fewer things are left than there were entries. -/
theorem length_le_length_flatMap {f : α → List β} (h : ∀ x ∈ xs, f x ≠ []) :
    xs.length ≤ (xs.flatMap f).length := by
  induction xs with
  | nil => exact Nat.le_refl 0
  | cons x xs ih =>
    obtain ⟨hx, hxs⟩ := List.forall_mem_cons.mp h
    rw [List.flatMap_cons, List.length_append, List.length_cons, Nat.add_comm]
    exact Nat.add_le_add (List.length_pos_iff.mpr hx) (ih hxs)

/-- A list is cut at the first entry that does not pass. -/
theorem span_append_cons {p : α → Bool} {x : α} {ys : List α} (hxs : ∀ y ∈ xs, p y = true)
    (hx : p x = false) : (xs ++ x :: ys).span p = (xs, x :: ys) := by
  rw [List.span_eq_takeWhile_dropWhile, List.takeWhile_append_of_pos hxs,
    List.dropWhile_append_of_pos hxs, List.takeWhile_cons_of_neg (by simp [hx]),
    List.dropWhile_cons_of_neg (by simp [hx]), List.append_nil]

/-- What is cut off in front passes. -/
theorem of_mem_span {p : α → Bool} {x : α} (h : x ∈ (xs.span p).1) : p x = true := by
  rw [List.span_eq_takeWhile_dropWhile] at h
  exact List.mem_takeWhile_imp h

/-- What is cut off in front passes, and what is left does not start with an entry that passes. -/
theorem of_span_eq {p : α → Bool} {ys zs : List α} (h : xs.span p = (ys, zs)) :
    xs = ys ++ zs ∧ (∀ y ∈ ys, p y = true) ∧ ∀ z ∈ zs.head?, p z = false := by
  rw [List.span_eq_takeWhile_dropWhile, Prod.mk.injEq] at h
  obtain ⟨rfl, rfl⟩ := h
  refine ⟨List.takeWhile_append_dropWhile.symm, fun y hy => List.mem_takeWhile_imp hy, ?_⟩
  intro z hz
  have hhead := List.head?_dropWhile_not p xs
  rw [Option.mem_def.mp hz] at hhead
  simpa using hhead

/-- A list is cut in one way only at an entry that does not come again. -/
theorem append_cons_inj {x : α} {ys zs ws : List α} (hys : x ∉ ys) (hws : x ∉ ws) :
    xs ++ x :: ys = zs ++ x :: ws ↔ xs = zs ∧ ys = ws := by
  refine ⟨fun h => ?_, fun ⟨hxs, hys⟩ => by rw [hxs, hys]⟩
  rcases List.append_eq_append_iff.mp h with ⟨between, rfl, hrest⟩ | ⟨between, rfl, hrest⟩
  · cases between with
    | nil => exact ⟨(List.append_nil xs).symm, (List.cons.inj hrest).2⟩
    | cons y between =>
      refine absurd ?_ hys
      rw [(List.cons.inj hrest).2]
      exact List.mem_append_cons_self
  · cases between with
    | nil => exact ⟨List.append_nil zs, (List.cons.inj hrest).2.symm⟩
    | cons y between =>
      refine absurd ?_ hws
      rw [(List.cons.inj hrest).2]
      exact List.mem_append_cons_self

theorem span_eq_self {p : α → Bool} (hxs : ∀ y ∈ xs, p y = true) : xs.span p = (xs, []) := by
  rw [List.span_eq_takeWhile_dropWhile, List.takeWhile_eq_self_iff.mpr hxs,
    List.dropWhile_eq_nil_iff.mpr hxs]

/-! ## First appearances -/

section EraseDups

variable {α : Type} [BEq α] [LawfulBEq α] {xs ys : List α}

theorem eraseDups_of_nodup (h : xs.Nodup) : xs.eraseDups = xs := by
  induction xs with
  | nil => rfl
  | cons x xs ih =>
    obtain ⟨hx, hxs⟩ := List.nodup_cons.mp h
    have hkept : xs.filter (fun y => !y == x) = xs :=
      List.filter_eq_self.mpr fun y hy => by
        simp only [Bool.not_eq_true', beq_eq_false_iff_ne]
        rintro rfl
        exact hx hy
    rw [List.eraseDups_cons, hkept, ih hxs]

theorem eraseDups_append_of_nodup (h : ys.Nodup) :
    (xs ++ ys).eraseDups = xs.eraseDups ++ ys.removeAll xs.eraseDups := by
  have hsame : ys.removeAll xs.eraseDups = ys.removeAll xs :=
    List.filter_congr fun y _ => by simp
  have hrest : (ys.removeAll xs).Nodup := h.filter _
  rw [List.eraseDups_append, hsame, eraseDups_of_nodup hrest]

/-- Of entries that occur more than once the first stays, and the order is that of the first
occurrences. -/
theorem pairwise_idxOf_eraseDups (xs : List α) :
    xs.eraseDups.Pairwise fun a b => xs.idxOf a < xs.idxOf b := by
  induction xs using List.reverseRecOn with
  | nil => exact .nil
  | append_singleton xs x ih =>
    have hkept : xs.eraseDups.Pairwise fun a b => (xs ++ [x]).idxOf a < (xs ++ [x]).idxOf b := by
      refine ih.imp_of_mem fun ha hb hlt => ?_
      rwa [List.idxOf_append, List.idxOf_append, if_pos (List.mem_eraseDups.mp ha),
        if_pos (List.mem_eraseDups.mp hb)]
    rw [List.eraseDups_append]
    by_cases hx : x ∈ xs
    · have hnone : [x].removeAll xs = [] := by simp [List.removeAll, hx]
      rwa [hnone, List.eraseDups_nil, List.append_nil]
    · have hone : [x].removeAll xs = [x] := by simp [List.removeAll, hx]
      rw [hone, eraseDups_of_nodup (List.pairwise_singleton ..), List.pairwise_append]
      refine ⟨hkept, List.pairwise_singleton .., fun a ha b hb => ?_⟩
      have ha := List.mem_eraseDups.mp ha
      rw [List.mem_singleton.mp hb, List.idxOf_append, List.idxOf_append, if_pos ha, if_neg hx]
      exact Nat.lt_of_lt_of_le (List.idxOf_lt_length_iff.mpr ha) (Nat.le_add_left ..)

end EraseDups

end Remap
