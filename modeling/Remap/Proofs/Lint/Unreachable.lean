import Remap.Proofs.Lint.Warnings

/-!
# Branches that never run

A condition whose truth follows from its literals alone has this truth in every scope
(`ConditionLowers.holds_eq`). Its executions start the one branch only, so none is ever at or below
the other (`Avoids.of_mem_children`). The main statement is that a branch of which the linter warns
is never run (`unreachableBranch_sound`).
-/

namespace Remap

/-! ## Known truths -/

namespace Condition

variable {parts : List (Option Bool)} {answers : List Bool} {truth : Bool}

/-- An answer is the truth that is known, if one is. -/
def Agrees (part : Option Bool) (answer : Bool) : Prop := ∀ truth ∈ part, answer = truth

/-- The truth of a connective of which some parts are known: the one truth decides it as soon as a
part has it, and the other only if all parts do. -/
def known (deciding : Bool) (parts : List (Option Bool)) : Option Bool :=
  if parts.contains (some deciding) then some deciding
  else if parts.all Option.isSome then some !deciding
  else none

/-- What is known of a connective tells whether an answer decides it. -/
theorem eq_iff_mem_of_known {deciding : Bool} (h : List.Forall₂ Agrees parts answers)
    (hknown : known deciding parts = some truth) : truth = deciding ↔ deciding ∈ answers := by
  unfold known at hknown
  split at hknown
  · next hdecides =>
    cases hknown
    obtain ⟨answer, hanswer, hagrees⟩ :=
      exists_of_mem_forall₂ h (List.contains_iff_mem.mp hdecides)
    exact iff_of_true rfl (hagrees truth rfl ▸ hanswer)
  · next hopen =>
    split at hknown
    · next hall =>
      cases hknown
      refine iff_of_false (Bool.not_ne_self deciding) fun hanswer => hopen ?_
      obtain ⟨part, hpart, hagrees⟩ := exists_of_mem_forall₂ h.flip hanswer
      obtain ⟨truth, rfl⟩ := Option.isSome_iff_exists.mp (List.all_eq_true.mp hall part hpart)
      rw [hagrees truth rfl]
      exact List.contains_iff_mem.mpr hpart
    · cases hknown

theorem all_eq_of_allKnown (h : List.Forall₂ Agrees parts answers)
    (hknown : allKnown parts = some truth) : answers.all id = truth := by
  have hiff : truth = false ↔ false ∈ answers := eq_iff_mem_of_known h hknown
  cases truth with
  | false => exact List.all_eq_false.mpr ⟨false, hiff.mp rfl, Bool.false_ne_true⟩
  | true =>
    refine List.all_eq_true.mpr fun answer hanswer => ?_
    cases answer with
    | true => rfl
    | false => nomatch hiff.mpr hanswer

theorem any_eq_of_anyKnown (h : List.Forall₂ Agrees parts answers)
    (hknown : anyKnown parts = some truth) : answers.any id = truth := by
  have hiff : truth = true ↔ true ∈ answers := eq_iff_mem_of_known h hknown
  cases truth with
  | true => exact List.any_eq_true.mpr ⟨true, hiff.mp rfl, rfl⟩
  | false =>
    refine List.any_eq_false.mpr fun answer hanswer => ?_
    cases answer with
    | false => exact Bool.false_ne_true
    | true => nomatch hiff.mpr hanswer

theorem constants_eq (cs : List Condition) : constants cs = cs.map constant? := by
  induction cs with
  | nil => rfl
  | cons c cs ih => rw [constants, ih, List.map_cons]

end Condition

namespace Plan

variable {scope : Run.Scope}

theorem Predicate.holds_testAll (ps : List Predicate) :
    (testAll scope ps).holds = (ps.map fun p => (p.test scope).holds).all id := by
  induction ps with
  | nil => rfl
  | cons p ps ih =>
    rw [testAll, List.map_cons, List.all_cons, ← ih]
    cases hp : (p.test scope).holds with
    | true => rfl
    | false => exact hp

theorem Predicate.holds_testAny (ps : List Predicate) :
    (testAny scope ps).holds = (ps.map fun p => (p.test scope).holds).any id := by
  induction ps with
  | nil => rfl
  | cons p ps ih =>
    rw [testAny, List.map_cons, List.any_cons, ← ih]
    cases hp : (p.test scope).holds with
    | true => exact hp
    | false => rfl

/-- A condition whose truth is known comes down to a predicate that has this truth in every
scope. -/
theorem ConditionLowers.holds_eq {c : Condition} {p : Predicate} (h : ConditionLowers c p)
    {truth : Bool} (htruth : c.constant? = some truth) : (p.test scope).holds = truth := by
  have agree {cs : List Condition} {ps : List Predicate}
      (ih : ∀ c ∈ cs, ∀ {p : Predicate}, ConditionLowers c p → ∀ {truth : Bool},
        c.constant? = some truth → (p.test scope).holds = truth)
      (hps : List.Forall₂ ConditionLowers cs ps) :
      List.Forall₂ Condition.Agrees (Condition.constants cs)
        (ps.map fun p => (p.test scope).holds) := by
    rw [Condition.constants_eq, List.forall₂_map_left_iff, List.forall₂_map_right_iff]
    exact forall₂_imp_of_mem hps fun c hc _ hp _ htruth => ih c hc hp htruth
  induction c using Condition.induct generalizing p truth with
  | literal value => cases h; cases htruth; rfl
  | not c ih =>
    cases h with
    | not hp =>
      obtain ⟨truth, hc, rfl⟩ := Option.map_eq_some_iff.mp htruth
      rw [Predicate.test, ih hp hc]
  | and cs ih =>
    cases h with
    | and hps =>
      rw [Predicate.test, Predicate.holds_testAll]
      exact Condition.all_eq_of_allKnown (agree ih hps) htruth
  | or cs ih =>
    cases h with
    | or hps =>
      rw [Predicate.test, Predicate.holds_testAny]
      exact Condition.any_eq_of_anyKnown (agree ih hps) htruth
  | equals | «exists» | «matches» | greaterThan | lessThan => cases htruth

/-- What a condition comes down to, without its branches. -/
theorem Lowers.exists_condition {test : Condition} {yes : Rule.Node} {no : Option Rule.Node}
    {node : Node} (h : Lowers (.condition test yes no) node) :
    ∃ p yes' no', node = .condition p yes' no' ∧ ConditionLowers test p := by
  cases h with
  | ifThen htest _ => exact ⟨_, _, _, rfl, htest⟩
  | ifElse htest _ _ => exact ⟨_, _, _, rfl, htest⟩

end Plan

/-! ## Places at and below a text -/

/-- A place has a text, or lies below the place that has it: behind the text stand those of
steps. -/
def Rule.Place.Within (p : Place) (text : String) : Prop :=
  ∃ steps, p.text = (Place.mk text steps).text

/-! ## Executions -/

namespace Run.Execution

variable {root : Rule.Node} {e c : Execution} {visit : Rule.Visit}

/-- An execution starts the branch only that its condition's answer starts. -/
theorem place_of_mem_children_condition {test : Plan.Predicate} {yes : Plan.Node}
    {no : Option Plan.Node} (hnode : e.node = .condition test yes no) (hc : c ∈ e.children) :
    c.place = e.place.down (.ofAnswer (test.test e.scope).holds) := by
  rw [children, hnode] at hc
  simp only at hc
  cases hholds : (test.test e.scope).holds with
  | true =>
    rw [hholds, if_pos rfl] at hc
    rw [List.mem_singleton.mp hc]
    rfl
  | false =>
    rw [hholds, if_neg Bool.false_ne_true] at hc
    obtain ⟨no, -, rfl⟩ := Option.map_eq_some_iff.mp (Option.mem_toList.mp hc)
    rfl

/-- An execution stands neither at a place of the tree nor below it. -/
def Avoids (e : Execution) (place : Rule.Place) : Prop :=
  ∀ steps, e.place.static ≠ place.below steps

theorem avoids_top (plan : Plan) (input : Value) (place : Rule.Place) (s : Rule.Step) :
    (top plan input).Avoids (place.down s) := by
  intro steps heq
  have hsteps : [] = place.steps ++ [s] ++ steps := congrArg Rule.Place.steps heq
  simp at hsteps

/-- What avoids the branch that the truth of a condition rules out starts nothing in it: it is not
at the condition, or it starts the other branch. -/
theorem Avoids.of_mem_children (hfollows : Follows root e) (hvisit : visit ∈ root.visits .root)
    {test : Condition} {yes : Rule.Node} {no : Option Rule.Node}
    (hnode : visit.node = .condition test yes no) {truth : Bool}
    (htruth : test.constant? = some truth)
    (havoids : e.Avoids (visit.place.down (.ofAnswer !truth))) (hc : c ∈ e.children) :
    c.Avoids (visit.place.down (.ofAnswer !truth)) := by
  intro steps hplace
  obtain ⟨-, ⟨s, hdown⟩, -⟩ := Execution.of_mem_children hc
  rw [hdown, Rule.Place.static_down] at hplace
  rcases List.eq_nil_or_concat steps with rfl | ⟨above, last, rfl⟩
  · rw [Rule.Place.below_nil, Rule.Place.down_inj] at hplace
    obtain ⟨hplace, hs⟩ := hplace
    have hlowers := hfollows.lowers_of_mem_visits hvisit hplace
    rw [hnode] at hlowers
    obtain ⟨p, yes, no, he, htest⟩ := hlowers.exists_condition
    have hbranch := place_of_mem_children_condition he hc
    rw [htest.holds_eq htruth, hdown, Rule.Place.down_inj] at hbranch
    rw [hbranch.2] at hs
    cases truth <;> cases hs
  · rw [List.concat_eq_append, ← Rule.Place.below_below, ← Rule.Place.down_eq_below,
      Rule.Place.down_inj] at hplace
    exact havoids above hplace.1

/-- No execution of a run is at or below the branch that the known truth of a condition rules out. -/
theorem avoids_of_mem_executions {document : Rule.Document} {plan : Plan}
    (hplan : Plan.ofDocument document = .ok plan) {input : Value}
    (hvisit : visit ∈ document.root.visits .root) {test : Condition} {yes : Rule.Node}
    {no : Option Rule.Node} (hnode : visit.node = .condition test yes no) {truth : Bool}
    (htruth : test.constant? = some truth) (he : e ∈ (top plan input).executions) :
    e.Avoids (visit.place.down (.ofAnswer !truth)) := by
  have htop : Follows document.root (top plan input) :=
    ⟨document.root, lowers_top hplan input, List.Subset.refl _⟩
  -- That it follows the tree is what tells which node it came from, so both are kept together.
  refine (of_mem_executions (P := fun e => Follows document.root e ∧
    e.Avoids (visit.place.down (.ofAnswer !truth))) ?_ ⟨htop, avoids_top plan input _ _⟩ he).2
  intro e ⟨hfollows, havoids⟩ c hc
  exact ⟨hfollows.of_mem_children hc, havoids.of_mem_children hfollows hvisit hnode htruth hc⟩

end Run.Execution

/-! ## Warnings -/

namespace Lint

/-- A branch that is warned of is one that the known truth of its condition rules out. -/
theorem exists_condition_of_mem_nodeWarnings {visit : Rule.Visit} {d : Diagnostic}
    (hd : d ∈ nodeWarnings visit) (hcode : d.code = .unreachableBranch) :
    ∃ test yes no truth, visit.node = .condition test yes no ∧ test.constant? = some truth ∧
      d.path = (visit.place.down (.ofAnswer !truth)).text := by
  rcases nodeWarnings_cases hd with ⟨-, hcondition⟩ | ⟨hother, -⟩ | ⟨hother, -⟩
  · exact hcondition
  · rw [hcode] at hother
    cases hother
  · rw [hcode] at hother
    cases hother

/-- **Unreachable branches** are never run. A condition whose truth is known comes down to a
predicate that has this truth in every scope. And where a document has a plan, the linter warns of
branches of conditions only, and no run executes anything at or below a branch that it warns of. -/
theorem unreachableBranch_sound (source : Fragment.Source) (document : Rule.Document) :
    (∀ path c p truth, (Plan.lowerCondition path c).value = some p → c.constant? = some truth →
      ∀ scope, (p.test scope).holds = truth) ∧
    ∀ plan, Plan.compile source document = .ok plan →
      ∀ d ∈ Lint.document source document, d.code = .unreachableBranch →
        (∃ visit ∈ (Fragment.bundle source document).document.root.visits .root,
          ∃ test yes no s, visit.node = .condition test yes no ∧ (s = .yes ∨ s = .no) ∧
            d.path = (visit.place.down s).text) ∧
        ∀ input, ∀ e ∈ (Run.Execution.top plan input).executions,
          ¬e.place.static.Within d.path := by
  constructor
  · intro path c p truth hp htruth scope
    exact (Plan.ConditionLowers.of_value hp).holds_eq htruth
  intro plan hplan d hd hcode
  obtain ⟨visit, hvisit, hd⟩ := exists_visit_of_mem_document hplan hd (by rw [hcode]; nofun)
  obtain ⟨test, yes, no, truth, hnode, htruth, hpath⟩ :=
    exists_condition_of_mem_nodeWarnings hd hcode
  constructor
  · refine ⟨visit, hvisit, test, yes, no, _, hnode, ?_, hpath⟩
    cases truth with
    | true => exact .inr rfl
    | false => exact .inl rfl
  · rintro input e he ⟨steps, htext⟩
    have hlowered := (Plan.compile_eq_ok_iff.mp hplan).2
    rw [hpath, ← Rule.Place.text_below, Rule.Place.below_down] at htext
    apply Run.Execution.avoids_of_mem_executions hlowered hvisit hnode htruth he steps
    rw [Rule.Place.below_down]
    exact Run.Execution.static_eq_of_text he hvisit htext

/-- Rules that read the ids of rows, on a condition that always holds. -/
def rowIdsIfAny : Rule.Document :=
  ⟨"1.2", .json, .json, [], [],
    .split "rows"
      (.condition (.or [.exists "id", .not (.literal false)])
        (.field ⟨.path "id", [], "id", false⟩)
        (some (.field ⟨.constant .null, [], "id", false⟩))) "ids"⟩

def rowIdsIfAnyPlan : Plan :=
  ⟨"1.2", .json, .json,
    .split ⟨false, [.key "rows"]⟩
      (.condition (.or [.exists ⟨false, [.key "id"]⟩, .not (.literal false)])
        (.field ⟨.path ⟨false, [.key "id"]⟩, [], ⟨[.key "id"]⟩, false⟩)
        (some (.field ⟨.constant .null, [], ⟨[.key "id"]⟩, false⟩))) ⟨[.key "ids"]⟩⟩

/-- No row comes to the other branch. -/
theorem unreachableBranch_sound_rowIdsIfAny :
    Plan.compile .empty rowIdsIfAny = .ok rowIdsIfAnyPlan ∧
      Warning.elseNeverRuns.diagnostic "root.item.else" ∈ Lint.document .empty rowIdsIfAny ∧
      (∀ scope, ((Plan.Predicate.or [.exists ⟨false, [.key "id"]⟩, .not (.literal false)]).test
        scope).holds = true) ∧
      ∀ input, ∀ e ∈ (Run.Execution.top rowIdsIfAnyPlan input).executions,
        ¬e.place.static.Within "root.item.else" := by
  have hplan : Plan.compile .empty rowIdsIfAny = .ok rowIdsIfAnyPlan := by cbv
  have hmem : Warning.elseNeverRuns.diagnostic "root.item.else" ∈
      Lint.document .empty rowIdsIfAny := List.mem_of_getElem? (i := 0) (by cbv)
  have hlowered : (Plan.lowerCondition "" (.or [.exists "id", .not (.literal false)])).value =
      some (.or [.exists ⟨false, [.key "id"]⟩, .not (.literal false)]) := by cbv
  obtain ⟨htests, hbranches⟩ := unreachableBranch_sound .empty rowIdsIfAny
  exact ⟨hplan, hmem, htests _ _ _ _ hlowered rfl, (hbranches _ hplan _ hmem rfl).2⟩

end Lint

end Remap
