import Remap.Value

/-!
# The depth of containers

The nesting of a value that has been read is checked container by container, with a stack of the
values that are still to be checked and the depth of each of them.
-/

namespace Remap

namespace Value

/-- The values that a container holds. -/
def children? : Value → Option (List Value)
  | array items => some items
  | object fields => some (fields.map (·.2))
  | _ => none

mutual

/-- How many values there are in a value, with itself. -/
def count : Value → Nat
  | array items => countItems items + 1
  | object fields => countFields fields + 1
  | _ => 1

def countItems : List Value → Nat
  | [] => 0
  | v :: rest => count v + countItems rest

def countFields : List (String × Value) → Nat
  | [] => 0
  | (_, v) :: rest => count v + countFields rest

end

theorem countFields_eq (fields : List (String × Value)) :
    countFields fields = countItems (fields.map (·.2)) := by
  induction fields with
  | nil => rfl
  | cons e fields ih => rw [countFields, ih, List.map_cons, countItems]

theorem countItems_append (items more : List Value) :
    countItems (items ++ more) = countItems items + countItems more := by
  induction items with
  | nil => exact (Nat.zero_add _).symm
  | cons v items ih => rw [List.cons_append, countItems, ih, countItems, Nat.add_assoc]

theorem countItems_reverse (items : List Value) :
    countItems items.reverse = countItems items := by
  induction items with
  | nil => rfl
  | cons v items ih =>
    rw [List.reverse_cons, countItems_append, ih, countItems, countItems, countItems]
    omega

theorem count_pos (v : Value) : 0 < v.count := by
  cases v <;> exact Nat.succ_pos _

theorem count_eq_of_children? {v : Value} {children : List Value}
    (h : v.children? = some children) : v.count = countItems children + 1 := by
  cases v with
  | array items =>
    cases h
    rfl
  | object fields =>
    cases h
    rw [count, countFields_eq]
  | null | bool | number | string => cases h

end Value

namespace Json

/-- Whether no container is deeper than the limit, of those on a stack and those in them. The stack
has each value with its depth. -/
def withinDepth (limit : Nat) : List (Value × Nat) → Bool
  | [] => true
  | (v, depth) :: stack =>
    match _h : v.children? with
    | none => withinDepth limit stack
    | some children =>
      if limit < depth then false
      else withinDepth limit (children.reverse.map (·, depth + 1) ++ stack)
termination_by stack => Value.countItems (stack.map (·.1))
decreasing_by
  · rw [List.map_cons, Value.countItems]
    exact Nat.lt_add_of_pos_left v.count_pos
  · have hchildren : (children.reverse.map (·, depth + 1)).map (·.1) = children.reverse := by
      rw [List.map_map]
      exact List.map_id _
    rw [List.map_append, hchildren, Value.countItems_append, Value.countItems_reverse,
      List.map_cons, Value.countItems, Value.count_eq_of_children? ‹_›]
    omega

end Json

end Remap
