import Remap.Run.Execute

/-!
# Paths that a node reads

The source paths of a node of a plan, conditions at any depth and the placeholders of templates
included. What a node does by itself depends on its scope through these paths alone.
-/

namespace Remap.Plan

namespace Predicate

mutual

/-- The paths that a predicate may read. -/
def paths : Predicate → List SourcePath
  | equals source _ | «exists» source | «matches» source _ _ | greaterThan source _
  | lessThan source _ => [source]
  | and predicates | or predicates => listPaths predicates
  | not predicate => paths predicate
  | literal _ => []

/-- The paths that a list of predicates may read. -/
def listPaths : List Predicate → List SourcePath
  | [] => []
  | p :: ps => paths p ++ listPaths ps

end

/-- Induction over predicates. The parts of a predicate satisfy the motive one by one. -/
theorem induct {motive : Predicate → Prop} (equals : ∀ source value, motive (.equals source value))
    («exists» : ∀ source, motive (.exists source))
    («matches» : ∀ source text pattern, motive (.matches source text pattern))
    (and : ∀ ps, (∀ p ∈ ps, motive p) → motive (.and ps))
    (or : ∀ ps, (∀ p ∈ ps, motive p) → motive (.or ps))
    (not : ∀ p, motive p → motive (.not p)) (literal : ∀ value, motive (.literal value))
    (greaterThan : ∀ source value, motive (.greaterThan source value))
    (lessThan : ∀ source value, motive (.lessThan source value)) (p : Predicate) : motive p := by
  refine Predicate.rec (motive_1 := motive) (motive_2 := fun ps => ∀ p ∈ ps, motive p) equals
    «exists» «matches» and or not literal greaterThan lessThan (fun _ h => nomatch h) ?_ p
  intro head tail hhead htail p hp
  rcases List.mem_cons.mp hp with rfl | hp
  · exact hhead
  · exact htail p hp

end Predicate

/-- The paths that a field may read. -/
def Field.paths (f : Field) : List SourcePath :=
  (match f.source with
    | .path path => [path]
    | .constant _ => []) ++ f.operations.flatMap Operation.paths

/-- The paths that a node may read by itself. -/
def Node.paths : Node → List SourcePath
  | .field f => f.paths
  | .condition test _ _ => test.paths
  | .split source _ _ => [source]
  | .merge .. | .sequence _ => []

end Remap.Plan

namespace Remap.Operation

theorem render_congr {a b : SourcePath → Option Value} {parts : List Template.Part}
    (h : ∀ path ∈ Template.paths parts, a path = b path) (v : Value) :
    render a v parts = render b v parts := by
  induction parts with
  | nil => rfl
  | cons part parts ih =>
    cases part with
    | literal text => rw [render, render, ih h]
    | value => rw [render, render, ih h]
    | path p =>
      rw [render, render, h p List.mem_cons_self, ih fun q hq => h q (List.mem_cons_of_mem _ hq)]

theorem apply_congr {a b : SourcePath → Option Value} {op : Operation}
    (h : ∀ path ∈ op.paths, a path = b path) (v : Value) : op.apply a v = op.apply b v := by
  cases op with
  | template parts =>
    simp only [apply]
    rw [render_congr h]
  | _ => cases v <;> rfl

end Remap.Operation

namespace Remap.Run

open Plan (Predicate)

variable {a b : Scope}

/-- The answer of a predicate depends on its paths alone. -/
theorem test_congr {p : Predicate} (h : ∀ path ∈ p.paths, a.resolve? path = b.resolve? path) :
    p.test a = p.test b := by
  induction p using Predicate.induct with
  | literal value => rfl
  | equals source value | «exists» source | «matches» source text pattern
  | greaterThan source value | lessThan source value =>
    simp only [Predicate.test, h source (List.mem_singleton_self _)]
  | not p ih => rw [Predicate.test, Predicate.test, ih h]
  | and ps ih =>
    have hall : Predicate.testAll a ps = Predicate.testAll b ps := by
      induction ps with
      | nil => rfl
      | cons p ps ihps =>
        rw [Predicate.testAll, Predicate.testAll,
          ih p List.mem_cons_self fun q hq => h q (List.mem_append_left _ hq),
          ihps (fun q hq => ih q (List.mem_cons_of_mem _ hq))
            fun q hq => h q (List.mem_append_right _ hq)]
    rw [Predicate.test, Predicate.test, hall]
  | or ps ih =>
    have hany : Predicate.testAny a ps = Predicate.testAny b ps := by
      induction ps with
      | nil => rfl
      | cons p ps ihps =>
        rw [Predicate.testAny, Predicate.testAny,
          ih p List.mem_cons_self fun q hq => h q (List.mem_append_left _ hq),
          ihps (fun q hq => ih q (List.mem_cons_of_mem _ hq))
            fun q hq => h q (List.mem_append_right _ hq)]
    rw [Predicate.test, Predicate.test, hany]

theorem applyAll_congr {operations : List Operation}
    (h : ∀ path ∈ operations.flatMap Operation.paths, a.resolve? path = b.resolve? path) (i : Nat)
    (v : Value) : applyAll a i v operations = applyAll b i v operations := by
  induction operations generalizing i v with
  | nil => rfl
  | cons op operations ih =>
    rw [applyAll, applyAll, Operation.apply_congr fun path hpath =>
      h path (List.mem_append_left _ hpath)]
    split
    · exact ih (fun path hpath => h path (List.mem_append_right _ hpath)) _ _
    · rfl

/-- What a field starts from depends on its paths alone. -/
theorem origin_congr {f : Plan.Field} (h : ∀ path ∈ f.paths, a.resolve? path = b.resolve? path) :
    origin a f = origin b f := by
  unfold origin
  split
  · rfl
  · next path hsource =>
    have hmem : path ∈ f.paths := by
      rw [Plan.Field.paths, hsource]
      exact List.mem_append_left _ (List.mem_singleton_self _)
    rw [h path hmem]

/-- What a field does depends on its paths alone. -/
theorem runField_congr {f : Plan.Field} (h : ∀ path ∈ f.paths, a.resolve? path = b.resolve? path)
    (place : Rule.Place) (before : Value) :
    runField a place f before = runField b place f before := by
  rw [runField, runField, origin_congr h]
  simp only [applyAll_congr fun path hpath => h path (List.mem_append_right _ hpath)]

end Remap.Run
