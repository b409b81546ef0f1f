import Mathlib.Tactic.SplitIfs
import Remap.Json.Depth

/-!
# The nesting of values

The nesting of a value is the number of containers on the branch that has most of them. The check
of containers one by one, which starts with the value as the first of them, succeeds exactly if
the nesting is within the limit (`Json.withinDepth_iff`).
-/

namespace Remap

namespace Value

variable {v w : Value} {children items : List Value} {fields : List (String × Value)} {m n : Nat}

/-! ## Containers -/

theorem itemsNesting_le_iff : itemsNesting items ≤ m ↔ ∀ v ∈ items, v.nesting ≤ m := by
  induction items with
  | nil => exact iff_of_true (Nat.zero_le m) (List.forall_mem_nil _)
  | cons v items ih => rw [itemsNesting, Nat.max_le, ih, List.forall_mem_cons]

theorem fieldsNesting_eq (fields : List (String × Value)) :
    fieldsNesting fields = itemsNesting (fields.map (·.2)) := by
  induction fields with
  | nil => rfl
  | cons e fields ih => rw [fieldsNesting, ih, List.map_cons, itemsNesting]

/-- A container adds one level to what it holds. -/
theorem nesting_eq_of_children? (h : v.children? = some children) :
    v.nesting = itemsNesting children + 1 := by
  cases v with
  | array items =>
    cases h
    rw [nesting]
  | object fields =>
    cases h
    rw [nesting, fieldsNesting_eq]
  | null | bool | number | string => cases h

theorem nesting_eq_zero (h : v.children? = none) : v.nesting = 0 := by
  cases v with
  | array | object => cases h
  | null | bool | number | string => rfl

/-- In a container that is not empty some value is nested most. -/
theorem exists_nesting_eq (hne : items ≠ []) : ∃ v ∈ items, v.nesting = itemsNesting items := by
  induction items with
  | nil => exact absurd rfl hne
  | cons v items ih =>
    rw [itemsNesting]
    by_cases hle : itemsNesting items ≤ v.nesting
    · exact ⟨v, List.mem_cons_self, (Nat.max_eq_left hle).symm⟩
    · cases items with
      | nil => exact absurd (Nat.zero_le _) hle
      | cons next items =>
        obtain ⟨w, hw, heq⟩ := ih (List.cons_ne_nil next items)
        refine ⟨w, List.mem_cons_of_mem v hw, ?_⟩
        rw [heq, Nat.max_eq_right (Nat.le_of_not_le hle)]

/-! ## Branches -/

/-- `Branch v n` says that `n` containers are passed on the way from a value down to a scalar or an
empty container, with these themselves. -/
inductive Branch : Value → Nat → Prop
  | scalar {v : Value} (h : v.children? = none) : Branch v 0
  | empty {v : Value} (h : v.children? = some []) : Branch v 1
  | child {v w : Value} {children : List Value} {n : Nat} (h : v.children? = some children)
      (hw : w ∈ children) (hrest : Branch w n) : Branch v (n + 1)

theorem Branch.le_nesting (h : Branch v n) : n ≤ v.nesting := by
  induction h with
  | scalar h => exact Nat.zero_le _
  | empty h =>
    rw [nesting_eq_of_children? h]
    exact Nat.succ_le_succ (Nat.zero_le _)
  | child h hw _ ih =>
    rw [nesting_eq_of_children? h]
    exact Nat.succ_le_succ (Nat.le_trans ih (itemsNesting_le_iff.mp (Nat.le_refl _) _ hw))

/-- Some branch has as many containers as the nesting says. -/
theorem exists_branch (h : v.nesting = n) : Branch v n := by
  induction n generalizing v with
  | zero =>
    cases hchildren : v.children? with
    | none => exact .scalar hchildren
    | some children =>
      rw [nesting_eq_of_children? hchildren] at h
      cases h
  | succ n ih =>
    cases hchildren : v.children? with
    | none =>
      rw [nesting_eq_zero hchildren] at h
      cases h
    | some children =>
      rw [nesting_eq_of_children? hchildren] at h
      cases children with
      | nil =>
        cases h
        exact .empty hchildren
      | cons w children =>
        obtain ⟨x, hx, hnesting⟩ := exists_nesting_eq (List.cons_ne_nil w children)
        exact .child hchildren hx (ih (hnesting.trans (Nat.succ.inj h)))

theorem nesting_le_iff : v.nesting ≤ m ↔ ∀ n, Branch v n → n ≤ m := by
  constructor
  · exact fun h n hn => Nat.le_trans hn.le_nesting h
  · exact fun h => h v.nesting (exists_branch rfl)

end Value

/-! ## The check -/

namespace Json

variable {limit : Nat} {stack : List (Value × Nat)} {v : Value}

theorem withinDepth_scalar {depth : Nat} (h : v.children? = none) :
    withinDepth limit ((v, depth) :: stack) = withinDepth limit stack := by
  rw [withinDepth]
  split
  · rfl
  · next heq =>
    rw [h] at heq
    cases heq

theorem withinDepth_container {depth : Nat} {children : List Value}
    (h : v.children? = some children) : withinDepth limit ((v, depth) :: stack) =
      if limit < depth then false
      else withinDepth limit (children.reverse.map (·, depth + 1) ++ stack) := by
  rw [withinDepth]
  split
  · next heq =>
    rw [h] at heq
    cases heq
  · next heq =>
    cases h.symm.trans heq
    rfl

/-- The containers in a value at some depth are within the limit. -/
def Within (limit : Nat) (e : Value × Nat) : Prop :=
  e.1.nesting = 0 ∨ e.2 + e.1.nesting ≤ limit + 1

theorem within_iff {depth : Nat} :
    Within limit (v, depth) ↔ v.nesting = 0 ∨ depth + v.nesting ≤ limit + 1 :=
  Iff.rfl

theorem within_children_iff {depth : Nat} {children : List Value}
    (h : v.children? = some children) (hdepth : depth ≤ limit) :
    Within limit (v, depth) ↔ ∀ w ∈ children, Within limit (w, depth + 1) := by
  have hnesting := Value.nesting_eq_of_children? h
  have hbelow : Within limit (v, depth) ↔ Value.itemsNesting children ≤ limit - depth := by
    rw [within_iff]
    omega
  rw [hbelow, Value.itemsNesting_le_iff]
  refine forall₂_congr fun w _ => ?_
  rw [within_iff]
  omega

/-- The check succeeds if the containers in all values on the stack are within the limit. -/
theorem withinDepth_stack_iff :
    withinDepth limit stack = true ↔ ∀ e ∈ stack, Within limit e := by
  induction stack using withinDepth.induct limit with
  | case1 => exact iff_of_true (by rw [withinDepth]) (List.forall_mem_nil _)
  | case2 v depth stack h ih =>
    rw [withinDepth_scalar h, ih, List.forall_mem_cons]
    exact (and_iff_right (.inl (Value.nesting_eq_zero h))).symm
  | case3 v depth stack children h hdeep =>
    rw [withinDepth_container h, if_pos hdeep, List.forall_mem_cons, within_iff,
      Value.nesting_eq_of_children? h]
    refine iff_of_false Bool.false_ne_true fun hwithin => ?_
    have hv := hwithin.1
    omega
  | case4 v depth stack children h hdepth ih =>
    rw [withinDepth_container h, if_neg hdepth, ih, List.forall_mem_append, List.forall_mem_cons,
      within_children_iff h (Nat.le_of_not_lt hdepth), List.forall_mem_map]
    simp only [List.mem_reverse]

/-- The check of a value succeeds if its nesting is within the limit. -/
theorem withinDepth_iff : withinDepth limit [(v, 1)] = true ↔ v.nesting ≤ limit := by
  rw [withinDepth_stack_iff, List.forall_mem_singleton, within_iff]
  omega

end Json

end Remap
