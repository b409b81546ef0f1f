import Remap.Fragment.Table
import Remap.Rule.Walk

/-!
# The order of fragments

Fragments are put in an order in which each comes after those it refers to. References are followed
depth first; one that leads back to a fragment still being followed closes a cycle. What is seen to
lie on a cycle has no place in the order.
-/

namespace Remap.Fragment

/-- How far fragments have been followed. -/
structure Followed where
  /-- The fragments followed to the end. -/
  done : List String
  cyclic : List String
  order : List String
  problems : List Diagnostic

def Followed.start : Followed := ⟨[], [], [], []⟩

/-- A reference that leads back to `target`, of which `trail` holds the fragments being followed,
innermost first. -/
def Followed.close (f : Followed) (table : Table) (trail : List String) (target : String) :
    Followed :=
  let members := (trail.takeWhile (· != target) ++ [target]).reverse
  let path := ((table.get? target).map (·.origin.text)).getD ""
  { f with
    cyclic := f.cyclic ++ members
    problems := f.problems ++ [(Problem.cycle (members ++ [target])).diagnostic path] }

def Followed.finish (f : Followed) (name : String) : Followed :=
  { f with
    done := f.done ++ [name]
    order := if f.cyclic.contains name then f.order else f.order ++ [name] }

def offTrail (table : Table) (trail : List String) : Nat :=
  (table.keys.filter fun name => !trail.contains name).length

/-- A longer trail leaves fewer fragments off it. -/
theorem offTrail_lt {table : Table} {trail : List String} {name : String}
    (hmem : name ∈ table.keys) (hnew : trail.contains name = false) :
    offTrail table (name :: trail) < offTrail table trail := by
  refine length_filter_lt hmem (fun n hn => ?_) (by simpa using hnew) (by simp)
  simp only [Bool.not_eq_true', List.contains_eq_mem, decide_eq_false_iff_not] at hn ⊢
  exact fun hin => hn (List.mem_cons_of_mem _ hin)

/-- Follows references in order. Names that the table does not have lead nowhere. -/
def follow (table : Table) (trail targets : List String) (f : Followed) : Followed :=
  match targets with
  | [] => f
  | target :: rest =>
    match _hfound : table.get? target with
    | none => follow table trail rest f
    | some definition =>
      if _hnew : trail.contains target then follow table trail rest (f.close table trail target)
      else if f.done.contains target then follow table trail rest f
      else
        let inner := follow table (target :: trail) definition.node.references f
        follow table trail rest (inner.finish target)
termination_by (offTrail table trail, targets.length)
decreasing_by
  · exact .right _ (by simp)
  · exact .right _ (by simp)
  · exact .right _ (by simp)
  · exact .left _ _ (offTrail_lt (Entries.mem_keys_of_get? _hfound) (by simpa using _hnew))
  · exact .right _ (by simp)

/-- The fragments of a table in order, and the cycles among them. -/
def order (table : Table) : Followed := follow table [] table.keys .start

end Remap.Fragment
