import Remap.Proofs.Doctor.Insertion
import Remap.Proofs.Rule.Constants

/-!
# The doctor keeps constants

Fixes change paths and names of transforms, and conversions take no arguments. So the doctor leaves
the constants of rules as they are (`values_fix`).
-/

namespace Remap

namespace Rule

theorem Node.values_eq_of_nodes {n n' : Node}
    (h : List.Forall₂ (fun m m' => m'.ownValues = m.ownValues) n.nodes n'.nodes) :
    n'.values = n.values := by
  rw [Node.values, Node.values]
  generalize n.nodes = ms, n'.nodes = ms' at h
  induction h with
  | nil => rfl
  | cons hm _ ih => rw [List.flatMap_cons, List.flatMap_cons, hm, ih]

/-- Trees that are alike up to paths and calls without arguments have the same values. -/
theorem Node.Alike.values_eq {n n' : Node}
    (h : Alike (fun f f' => f'.values = f.values) n n') : n'.values = n.values := by
  refine values_eq_of_nodes (h.nodes.imp fun m m' hm => ?_)
  cases hm with
  | field hf => exact hf
  | ifThen | ifElse | merge | split | fragment | sequence => rfl

end Rule

namespace Doctor

open Rule (Node)

/-! ## Fixes -/

theorem values_fixCondition (path : String) (c : Condition) :
    (fixCondition path c).value.values = c.values := by
  have all {cs : List Condition}
      (ih : ∀ c ∈ cs, ∀ path, (fixCondition path c).value.values = c.values)
      (path : String) (i : Nat) :
      Condition.listValues (fixConditions path i cs).value = Condition.listValues cs := by
    induction cs generalizing i with
    | nil => rfl
    | cons c cs ihcs =>
      rw [Condition.listValues, ← ihcs (fun d hd => ih d (List.mem_cons_of_mem _ hd)) (i + 1),
        ← ih c List.mem_cons_self (path ++ ".conditions" ++ Rule.Step.indexText i)]
      rfl
  induction c using Condition.induct generalizing path with
  | equals | greaterThan | lessThan | «exists» | «matches» | literal => rfl
  | and cs ih | or cs ih => exact all ih path 0
  | not c ih => exact ih _

theorem args_fixCall (path : String) (call : Rule.Call) :
    (fixCall path call).value.args = call.args := by
  unfold fixCall
  split <;> rfl

theorem args_fixCalls (path : String) (calls : List Rule.Call) :
    ((calls.zipIdx.map fun (call, i) =>
      fixCall (path ++ ".transforms" ++ Rule.Step.indexText i) call).map Fixed.value).flatMap
        Rule.Call.args = calls.flatMap Rule.Call.args := by
  rw [List.map_map, List.flatMap_map]
  simp only [Function.comp_apply, args_fixCall]
  rw [← List.flatMap_map, List.zipIdx_map_fst]

theorem values_fixField (path : String) (f : Rule.Field) :
    (fixField path f).value.values = f.values := by
  have hsource : (fixOrigin path f.source).value.values = f.source.values := by
    cases f.source <;> rfl
  rw [Rule.Field.values, Rule.Field.values, ← hsource, ← args_fixCalls path f.transforms,
    ← Fixed.value_all]
  rfl

theorem Fixes.ownValues_eq {m m' : Node} (h : Fixes m m') : m'.ownValues = m.ownValues := by
  cases h with
  | field path f => exact values_fixField path f
  | condition path test => exact values_fixCondition path test
  | merge | split | fragment | sequence => rfl

theorem values_fixNode (place : Rule.Place) (n : Node) :
    (fixNode place n).value.values = n.values :=
  Node.values_eq_of_nodes ((fixes_nodes place n).imp fun _ _ h => h.ownValues_eq)

theorem values_fixText (document : Rule.Document) :
    (fixText document).value.values = document.values := by
  have hroot : (fixText document).value.root.values = document.root.values :=
    values_fixNode .root document.root
  rw [Rule.Document.values, Rule.Document.values, hroot, fragments_fixText, List.flatMap_map]
  simp only [values_fixNode]

/-! ## Conversions -/

theorem flatMap_args_insertIdx (calls : List Rule.Call) (i : Nat) (name : String) :
    (calls.insertIdx i ⟨name, []⟩).flatMap Rule.Call.args = calls.flatMap Rule.Call.args := by
  induction calls generalizing i with
  | nil => cases i <;> rfl
  | cons call rest ih =>
    cases i with
    | zero => rfl
    | succ i => rw [List.insertIdx_succ_cons, List.flatMap_cons, List.flatMap_cons, ih]

theorem values_insertInto (i : Insertion) (f : Rule.Field) :
    (insertInto i f).values = f.values := by
  unfold insertInto
  split
  · exact congrArg (f.source.values ++ ·) (flatMap_args_insertIdx ..)
  · rfl

theorem values_insertAllInto (is : List Insertion) (steps : List Rule.Step) (f : Rule.Field) :
    (insertAllInto is steps f).values = f.values := by
  unfold insertAllInto
  refine List.foldlRecOn is _ (motive := fun g : Rule.Field => g.values = f.values) rfl
    fun g hg i _ => ?_
  split
  · rw [values_insertInto, hg]
  · exact hg

theorem values_fixConversions (source : Fragment.Source) (document : Rule.Document)
    (sample : Value) :
    (fixConversions source document sample).value.values = document.values := by
  unfold fixConversions
  split
  · rfl
  · next plan _ =>
    have hstatic : ∀ i ∈ insertions sample (Run.start plan sample).log.failures,
        i.place.static = i.place := by
      intro i hi
      obtain ⟨f, -, hinsertion⟩ := mem_insertions.mp hi
      obtain ⟨_, _, -, -, rfl⟩ := insertion?_eq_some hinsertion
      exact f.place.static_static
    have halike : Node.Alike (fun f f' => f'.values = f.values) document.root
        (insertAll document.root
          (insertions sample (Run.start plan sample).log.failures)).value := by
      rw [value_insertAll_eq hstatic]
      exact Node.alike_mapFields fun steps f _ _ => values_insertAllInto _ steps f
    exact congrArg (· ++ document.fragments.flatMap (·.2.values)) halike.values_eq

/-- The doctor leaves the constants of rules as they are. -/
theorem values_fix (source : Fragment.Source) (document : Rule.Document) (sample : Option Value) :
    (fix source document sample).value.values = document.values := by
  cases sample with
  | none => exact values_fixText document
  | some sample =>
    exact (values_fixConversions source (fixText document).value sample).trans
      (values_fixText document)

/-- The doctor leaves the version and the includes of a document as they are. -/
theorem declared_fix {document : Rule.Document} (h : document.Declared) (source : Fragment.Source)
    (sample : Option Value) : (fix source document sample).value.Declared := by
  cases sample with
  | none => exact ⟨h.version, h.includes⟩
  | some sample =>
    have hconverted : (fix source document (some sample)).value =
        (fixConversions source (fixText document).value sample).value := rfl
    rw [hconverted]
    unfold fixConversions
    split
    · exact ⟨h.version, h.includes⟩
    · exact ⟨h.version, h.includes⟩

end Doctor

end Remap
