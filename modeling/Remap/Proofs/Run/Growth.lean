import Mathlib.Data.List.Permutation
import Remap.Proofs.Run.Executions
import Remap.Proofs.Run.Log
import Remap.Proofs.Run.Output

/-!
# Outputs only grow

The main statement is that a run never takes back or moves an atom that is in its output, so that
what a field writes to the output of a run without errors is there at the end (`output_grows`). An
output is what comes of writes, each of which keeps the atoms that are there; and a run without
errors meets no conflict (`unopposed_of_isClean`), so that each write puts its value at its target.
-/

namespace Remap.Run.Execution

/-- No write of a list meets a conflict. -/
def Unopposed (before : Value) : List (TargetPath × Value) → Prop
  | [] => True
  | w :: ws => (Output.write before w.1 w.2).conflict = none ∧ Unopposed (put before w) ws

theorem unopposed_append {before : Value} {xs ys : List (TargetPath × Value)} :
    Unopposed before (xs ++ ys) ↔ Unopposed before xs ∧ Unopposed (xs.foldl put before) ys := by
  induction xs generalizing before with
  | nil => exact iff_of_eq (true_and _).symm
  | cons w ws ih => exact (and_congr_right fun _ => ih).trans and_assoc.symm

/-- Writes keep every atom. -/
theorem grows_replay (before : Value) (writes : List (TargetPath × Value)) :
    before.Grows (writes.foldl put before) := by
  induction writes generalizing before with
  | nil => exact .refl before
  | cons w ws ih => exact (Output.grows_write before w.1 w.2).trans (ih (put before w))

/-- An atom that is written by one of some writes without conflicts is there at the end. -/
theorem Unopposed.find?_of_mem {before : Value} {writes : List (TargetPath × Value)}
    (h : Unopposed before writes) {target : TargetPath} {v : Value} (hmem : (target, v) ∈ writes)
    (hv : v.isAtom) : (writes.foldl put before).find? target.segments = some v := by
  obtain ⟨earlier, later, rfl⟩ := List.append_of_mem hmem
  obtain ⟨-, hconflict, -⟩ := unopposed_append.mp h
  have hfound := Output.find?_write hv hconflict
  rw [List.foldl_append, List.foldl_cons]
  exact grows_replay _ later target.segments v hv hfound

/-- Where no error is reported, no write to the output of an execution meets a conflict. -/
theorem unopposed_of_isClean {e : Execution} (he : e.Rooted) {before : Value}
    (h : (e.log before).IsClean) : Unopposed before (e.writes e.tree) := by
  induction e using induct generalizing before with
  | start e ih =>
    cases hshares : sharesOutput e.node with
    | false =>
      rw [log_of_not_shares hshares, Log.isClean_append] at h
      rw [writes, collect_of_not_shares _ he hshares]
      cases hwrite : e.write? with
      | none => trivial
      | some w => exact ⟨conflict_of_closing h.2 w hwrite, trivial⟩
    | true =>
      have hhanded : ∀ cs ⊆ e.children, ∀ before, (handedOn cs before).IsClean →
          Unopposed before (cs.flatMap (writes · e.tree)) := by
        intro cs
        induction cs with
        | nil => exact fun _ _ _ => trivial
        | cons c cs ihcs =>
          intro hcs before hclean
          obtain ⟨hc, hcs⟩ := List.cons_subset.mp hcs
          obtain ⟨hfirst, hrest⟩ := Log.isClean_append.mp hclean
          have hroot := he.of_mem_children hc
          have htree := tree_of_shares hshares hc
          rw [output_eq_replay hroot, htree] at hrest
          rw [List.flatMap_cons, unopposed_append]
          exact ⟨htree ▸ ih c hc hroot hfirst, ihcs hcs _ hrest⟩
      rw [log_of_shares hshares, Log.isClean_append] at h
      rw [writes, collect_eq, if_pos rfl, write?_of_shares hshares]
      exact hhanded _ (List.Subset.refl _) before h.2

/-- What is executed anywhere keeps every atom of the output that it begins with where it is. In a
run without errors, an atom that a field writes to the output of the run is found at its target in
the end. -/
theorem output_grows :
    (∀ (scope : Scope) (place : Rule.Place) (node : Plan.Node) (before : Value),
      before.Grows (exec scope place node before).output) ∧
    ∀ (plan : Plan) (input : Value), (execute plan input).errors = [] →
      ∃ output, (execute plan input).output = some output ∧
        ∀ e ∈ (top plan input).executions, e.tree = .root → ∀ f, e.node = .field f →
          ∀ v, e.write? = some (f.target, v) → v.isAtom →
            output.find? f.target.segments = some v := by
  constructor
  · intro scope place node before
    let e : Execution := ⟨scope, place, place, node⟩
    have he : e.Rooted := ⟨[], Rule.Place.below_nil.symm⟩
    have hreplay : (exec scope place node before).output = (e.writes e.tree).foldl put before :=
      output_eq_replay he before
    rw [hreplay]
    exact grows_replay before _
  · intro plan input herrors
    refine ⟨_, output_of_errors_eq_nil herrors, ?_⟩
    intro e he htree f _ v hwrite hv
    have hclean : ((top plan input).log (.object [])).IsClean := errors_eq_nil_iff.mp herrors
    have hunopposed := unopposed_of_isClean (rooted_top plan input) hclean
    have hmem : (f.target, v) ∈ (top plan input).writes .root :=
      mem_collect.mpr ⟨e, he, htree, hwrite⟩
    rw [output_start]
    exact hunopposed.find?_of_mem hmem hv

/-- The name that is written first is still there after the ids of rows are written. -/
theorem output_grows_rowIds :
    (execute rowIdsPlan oneRow).errors = [] ∧
      ∃ output, (execute rowIdsPlan oneRow).output = some output ∧
        output.find? [.key "name"] = some (.string "n") := by
  have herrors : (execute rowIdsPlan oneRow).errors = [] := by cbv
  have hmem : (⟨.ofInput .json oneRow, .root, ⟨"root", [.step 0]⟩,
      .field ⟨.path ⟨false, [.key "name"]⟩, [], ⟨[.key "name"]⟩, false⟩⟩ : Execution) ∈
        (top rowIdsPlan oneRow).executions :=
    List.mem_of_getElem? (i := 1) (by cbv)
  obtain ⟨output, houtput, hfields⟩ := output_grows.2 rowIdsPlan oneRow herrors
  exact ⟨herrors, output, houtput, hfields _ hmem rfl _ rfl (.string "n") (by cbv) rfl⟩

end Remap.Run.Execution
