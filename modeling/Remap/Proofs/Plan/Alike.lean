import Remap.Proofs.Plan.Compile
import Remap.Proofs.Rule.Alike

/-!
# Compiling trees that are alike

Rule trees that differ in their fields alone come down to plan trees that do (`Lowers.alike`). The
main statement is that a document whose fields make way for others that pass the checks as well is
compiled again, to a plan that differs in its fields alone (`compile_of_alike`).
-/

namespace Remap.Check

open Rule (Node Visit)

/-- What may stand in the place of a field as far as the checks go: a field that reads and writes
the same, and whose calls pass where those of the other do. -/
structure Replaces (f f' : Rule.Field) : Prop where
  source : f'.source = f.source
  target : f'.target = f.target
  calls : ∀ splits, (∀ call ∈ f.transforms, callProblems splits call = []) →
    ∀ call ∈ f'.transforms, callProblems splits call = []

variable {R : Rule.Field → Rule.Field → Prop} {document : Rule.Document}

theorem stepProblems_alike (hR : ∀ f f', R f f' → Replaces f f') {steps steps' : List Node}
    (h : List.Forall₂ (Node.Alike R) steps steps') (place : Rule.Place) (taken : Taken)
    (i index : Nat) :
    stepProblems place taken i index steps' = stepProblems place taken i index steps := by
  induction h generalizing taken i index with
  | nil => rfl
  | cons hstep _ ih =>
    have hwrites := hstep.writes_eq fun f f' hf => (hR f f' hf).target
    simp only [stepProblems, Node.targets, hwrites, hstep.size_eq, ih]

theorem transformProblems_eq_nil_iff {visit : Visit} {f : Rule.Field}
    (hnode : visit.node = .field f) : transformProblems visit = [] ↔
      ∀ call ∈ f.transforms, callProblems visit.splitDepth call = [] := by
  simp only [transformProblems, hnode, List.flatMap_eq_nil_iff, List.map_eq_nil_iff]
  constructor
  · intro h call hcall
    obtain ⟨i, hi⟩ := List.getElem?_of_mem hcall
    exact h (call, i) (List.mem_zipIdx_iff_getElem?.mpr hi)
  · intro h entry hentry
    exact h entry.1 (List.fst_mem_of_mem_zipIdx hentry)

/-- A node passes the checks in the place of one that is alike. -/
theorem Passes.alike {document' : Rule.Document} {i splits : Nat} {place : Rule.Place}
    {n n' : Node} (h : Passes document ⟨i, place, n, splits⟩)
    (hinput : document'.inputFormat = document.inputFormat)
    (houtput : document'.outputFormat = document.outputFormat)
    (hR : ∀ f f', R f f' → Replaces f f') (halike : Node.Alike R n n') :
    Passes document' ⟨i, place, n', splits⟩ := by
  obtain ⟨hpaths, hcalls, hstructure⟩ := h
  have hsame : pathProblems document' ⟨i, place, n', splits⟩ =
      pathProblems document ⟨i, place, n, splits⟩ := by
    cases halike with
    | field hf => simp only [pathProblems, hinput, houtput, (hR _ _ hf).source, (hR _ _ hf).target]
    | ifThen | ifElse | merge | split | fragment | sequence =>
      simp only [pathProblems, hinput, houtput]
  refine ⟨hsame.trans hpaths, ?_, ?_⟩
  · cases halike with
    | field hf =>
      rw [transformProblems_eq_nil_iff rfl] at hcalls ⊢
      exact (hR _ _ hf).calls splits hcalls
    | ifThen | ifElse | merge | split | fragment | sequence => rfl
  · cases halike with
    | sequence hsteps => exact (stepProblems_alike hR hsteps _ _ _ _).trans hstructure
    | merge hinputs =>
      cases hinputs with
      | nil => exact hstructure
      | cons => rfl
    | ifThen | ifElse => exact hstructure
    | field | split | fragment => rfl

/-- The checks pass a document of which the root is alike that of one that passes. -/
theorem resolved_alike (hR : ∀ f f', R f f' → Replaces f f') {root root' : Node}
    (halike : Node.Alike R root root')
    (h : resolved { document with root, fragments := [], includes := [] } = []) :
    resolved { document with root := root', fragments := [], includes := [] } = [] := by
  rw [resolved_eq_nil_iff] at h ⊢
  intro visit hvisit
  obtain ⟨⟨⟨place, splits, m'⟩, i⟩, hentry, rfl⟩ := List.mem_map.mp hvisit
  obtain ⟨⟨place', splits', m⟩, hm, hplace, hsplits, hnode⟩ :=
    forall₂_getElem? (halike.placed .root 0) (List.mem_zipIdx_iff_getElem?.mp hentry)
  cases hplace
  cases hsplits
  have hvisit : ⟨i, place, m, splits⟩ ∈ root.visits .root :=
    List.mem_map.mpr ⟨((place, splits, m), i), List.mem_zipIdx_iff_getElem?.mpr hm, rfl⟩
  have hpasses := h _ hvisit
  exact hpasses.alike rfl rfl hR hnode

end Remap.Check

namespace Remap.Plan

/-! ## Alike plans -/

/-- Plan trees that differ in nothing but their fields, each of which is related to the one in its
place. -/
inductive Node.Alike (S : Field → Field → Prop) : Node → Node → Prop where
  | field {f f' : Field} : S f f' → Alike S (.field f) (.field f')
  | ifThen {test : Predicate} {yes yes' : Node} : Alike S yes yes' →
      Alike S (.condition test yes none) (.condition test yes' none)
  | ifElse {test : Predicate} {yes no yes' no' : Node} : Alike S yes yes' → Alike S no no' →
      Alike S (.condition test yes (some no)) (.condition test yes' (some no'))
  | merge {inputs inputs' : List Node} {policy : MergePolicy} {target : TargetPath} :
      List.Forall₂ (Alike S) inputs inputs' →
      Alike S (.merge inputs policy target) (.merge inputs' policy target)
  | split {source : SourcePath} {item item' : Node} {target : TargetPath} : Alike S item item' →
      Alike S (.split source item target) (.split source item' target)
  | sequence {steps steps' : List Node} : List.Forall₂ (Alike S) steps steps' →
      Alike S (.sequence steps) (.sequence steps')

variable {R : Rule.Field → Rule.Field → Prop} {S : Field → Field → Prop}

/-- Induction over plan trees that are alike. The motive holds of the trees of a list one by one. -/
theorem Node.Alike.induct {motive : Node → Node → Prop}
    (field : ∀ f f', S f f' → motive (.field f) (.field f'))
    (ifThen : ∀ test yes yes', motive yes yes' →
      motive (.condition test yes none) (.condition test yes' none))
    (ifElse : ∀ test yes no yes' no', motive yes yes' → motive no no' →
      motive (.condition test yes (some no)) (.condition test yes' (some no')))
    (merge : ∀ inputs inputs' policy target, List.Forall₂ motive inputs inputs' →
      motive (.merge inputs policy target) (.merge inputs' policy target))
    (split : ∀ source item item' target, motive item item' →
      motive (.split source item target) (.split source item' target))
    (sequence : ∀ steps steps', List.Forall₂ motive steps steps' →
      motive (.sequence steps) (.sequence steps'))
    {p p' : Node} (h : Node.Alike S p p') : motive p p' := by
  refine Node.Alike.rec (motive_1 := fun p p' _ => motive p p')
    (motive_2 := fun ps ps' _ => List.Forall₂ motive ps ps') (fun hf => field _ _ hf)
    (fun _ ih => ifThen _ _ _ ih) (fun _ _ ihyes ihno => ifElse _ _ _ _ _ ihyes ihno)
    (fun _ ih => merge _ _ _ _ ih) (fun _ ih => split _ _ _ _ ih) (fun _ ih => sequence _ _ ih)
    .nil (fun _ _ ih ihs => .cons ih ihs) h

/-- A rule tree that is alike one that comes down to a plan tree comes down to one as well, and the
plan trees are alike. -/
theorem Lowers.alike
    (hRS : ∀ f f' g, R f f' → FieldLowers f g → ∃ g', FieldLowers f' g' ∧ S g g')
    {n n' : Rule.Node} {p : Node} (h : Lowers n p) (halike : Rule.Node.Alike R n n') :
    ∃ p', Lowers n' p' ∧ Node.Alike S p p' := by
  have all {ns ns' : List Rule.Node} {ps : List Node}
      (ih : List.Forall₂ (fun n n' => ∀ p, Lowers n p → ∃ p', Lowers n' p' ∧ Node.Alike S p p')
        ns ns') (h : List.Forall₂ Lowers ns ps) :
      ∃ ps', List.Forall₂ Lowers ns' ps' ∧ List.Forall₂ (Node.Alike S) ps ps' := by
    induction ih generalizing ps with
    | nil =>
      cases h
      exact ⟨[], .nil, .nil⟩
    | cons hn _ ihns =>
      cases h with
      | cons hfirst hrest =>
        obtain ⟨p', hp', hfirst'⟩ := hn _ hfirst
        obtain ⟨ps', hps', hrest'⟩ := ihns hrest
        exact ⟨p' :: ps', .cons hp' hps', .cons hfirst' hrest'⟩
  refine halike.induct (motive := fun n n' => ∀ p, Lowers n p →
    ∃ p', Lowers n' p' ∧ Node.Alike S p p') ?field ?ifThen ?ifElse ?merge ?split ?fragment ?sequence
    p h
  case field =>
    intro f f' hf p hp
    cases hp with
    | field hg =>
      obtain ⟨g', hg', hS⟩ := hRS _ _ _ hf hg
      exact ⟨_, .field hg', .field hS⟩
  case ifThen =>
    intro test yes yes' _ ih p hp
    cases hp with
    | ifThen htest hyes =>
      obtain ⟨p', hp', halike⟩ := ih _ hyes
      exact ⟨_, .ifThen htest hp', .ifThen halike⟩
  case ifElse =>
    intro test yes no yes' no' _ _ ihyes ihno p hp
    cases hp with
    | ifElse htest hyes hno =>
      obtain ⟨y', hy', hyes'⟩ := ihyes _ hyes
      obtain ⟨z', hz', hno'⟩ := ihno _ hno
      exact ⟨_, .ifElse htest hy' hz', .ifElse hyes' hno'⟩
  case merge =>
    intro inputs inputs' policy target _ ih p hp
    cases hp with
    | merge htarget hinputs =>
      obtain ⟨ps', hps', halike⟩ := all ih hinputs
      exact ⟨_, .merge htarget hps', .merge halike⟩
  case split =>
    intro source item item' target _ ih p hp
    cases hp with
    | split hsource htarget hitem =>
      obtain ⟨p', hp', halike⟩ := ih _ hitem
      exact ⟨_, .split hsource htarget hp', .split halike⟩
  case fragment =>
    intro name p hp
    cases hp
  case sequence =>
    intro steps steps' _ ih p hp
    cases hp with
    | sequence hsteps =>
      obtain ⟨ps', hps', halike⟩ := all ih hsteps
      exact ⟨_, .sequence hps', .sequence halike⟩

/-- A document is compiled again if other fields that pass the checks as well stand in the places of
its own, and the plans are alike. -/
theorem compile_of_alike (hrefl : ∀ f, R f f) (hR : ∀ f f', R f f' → Check.Replaces f f')
    (hRS : ∀ f f' g, R f f' → FieldLowers f g → ∃ g', FieldLowers f' g' ∧ S g g')
    {source : Fragment.Source} {document : Rule.Document} {plan : Plan}
    (hplan : compile source document = .ok plan) {root : Rule.Node}
    (halike : Rule.Node.Alike R document.root root) :
    ∃ p, compile source { document with root } = .ok { plan with root := p } ∧
      Node.Alike S plan.root p := by
  obtain ⟨hwell, e, p, hexpands, hresolved, hlowers, rfl⟩ := compile_eq_ok_iff_expands.mp hplan
  obtain ⟨e', hexpands', hexpanded⟩ := hexpands.alike hrefl halike
  obtain ⟨p', hlowers', hplans⟩ := hlowers.alike hRS hexpanded
  have hsame : Fragment.SameReferences document { document with root } :=
    ⟨rfl, List.forall₂_same.mpr fun _ _ => ⟨rfl, rfl⟩, halike.references_eq⟩
  have hdefines :
      Fragment.Defines source { document with root } = Fragment.Defines source document := by
    funext name node
    have reachable {name : String} : Fragment.Reachable source { document with root } name ↔
        Fragment.Reachable source document name := ⟨hsame.symm.reachable, hsame.reachable⟩
    refine propext ⟨fun h => ?_, fun h => ?_⟩
    · cases h with
      | own hmem => exact .own hmem
      | library hreach hloads hmem => exact .library (reachable.mp hreach) hloads hmem
    · cases h with
      | own hmem => exact .own hmem
      | library hreach hloads hmem => exact .library (reachable.mpr hreach) hloads hmem
  refine ⟨p', compile_eq_ok_iff_expands.mpr ⟨hsame.wellFormed hwell, e', p', ?_, ?_, hlowers', rfl⟩,
    hplans⟩
  · rw [hdefines]
    exact hexpands'
  · exact Check.resolved_alike hR hexpanded hresolved

end Remap.Plan
