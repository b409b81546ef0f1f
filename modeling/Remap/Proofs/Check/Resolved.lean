import Remap.Check.Resolved
import Remap.Check.Structure
import Remap.Proofs.Entries
import Remap.Proofs.Plan.Lowering
import Remap.Proofs.Rule.Walk

/-!
# What the checks rule out

All that the checks find are errors. Where they report no collision, the steps of every sequence
write different targets (`Collisionless`), and where they find nothing, every node that is no
reference can be lowered.
-/

namespace Remap.Rule.Node

/-- No target is written by two steps of a sequence of a tree. -/
def Collisionless (n : Node) : Prop :=
  ∀ steps, sequence steps ∈ n.nodes → steps.Pairwise fun a b => ∀ t ∈ a.writes, t ∉ b.writes

theorem text_mem_targets {n : Node} {t : TargetPath} (h : t ∈ n.writes) : t.text ∈ n.targets :=
  List.mem_eraseDups.mpr (List.mem_map.mpr ⟨t, h, rfl⟩)

theorem mem_allWrites {ns : List Node} {t : TargetPath} :
    t ∈ allWrites ns ↔ ∃ n ∈ ns, t ∈ n.writes := by
  induction ns with
  | nil => simp [allWrites]
  | cons n ns ih => simp [allWrites, ih]

end Remap.Rule.Node

namespace Remap.Check

open Plan (CallLowers ConditionLowers OriginLowers Readable)
open Rule (Node Visit)

/-! ## Collisions -/

theorem mem_keys_take {taken : Taken} {i : Nat} {targets : List String} {t : String} :
    t ∈ (take taken i targets).keys ↔ t ∈ taken.keys ∨ t ∈ targets := by
  have hkeys : (take taken i targets).keys =
      taken.keys ++ targets.filter fun target => !taken.has target := by
    rw [take, Entries.keys_append]
    simp only [Entries.keys, List.map_map, Function.comp_def, List.map_id']
  rw [hkeys, List.mem_append, List.mem_filter, Bool.not_eq_true', ← Bool.not_eq_true,
    Entries.has_iff]
  constructor
  · rintro (h | ⟨h, -⟩)
    · exact .inl h
    · exact .inr h
  · rintro (h | h)
    · exact .inl h
    · by_cases htaken : t ∈ taken.keys
      · exact .inl htaken
      · exact .inr ⟨h, htaken⟩

theorem collisions_eq_nil_iff {taken : Taken} {place : Rule.Place} {targets : List String} :
    collisions taken place targets = [] ↔ ∀ t ∈ targets, t ∉ taken.keys := by
  simp only [collisions, List.filterMap_eq_nil_iff, Option.map_eq_none_iff,
    Entries.get?_eq_none_iff]

/-- Steps without problems write targets that are not taken, and each its own. -/
theorem disjoint_of_stepProblems {place : Rule.Place} {taken : Taken} {i index : Nat}
    {steps : List Node} (h : stepProblems place taken i index steps = []) :
    (∀ step ∈ steps, ∀ t ∈ step.targets, t ∉ taken.keys) ∧
      steps.Pairwise fun a b => ∀ t ∈ a.targets, t ∉ b.targets := by
  induction steps generalizing taken i index with
  | nil => exact ⟨fun step hstep => (nomatch hstep), .nil⟩
  | cons step rest ih =>
    obtain ⟨hstep, hrest⟩ := List.append_eq_nil_iff.mp h
    rw [List.map_eq_nil_iff, collisions_eq_nil_iff] at hstep
    obtain ⟨hfree, hpairwise⟩ := ih hrest
    refine ⟨fun other hother t ht htaken => ?_, .cons (fun other hother t ht hmem => ?_) hpairwise⟩
    · rcases List.mem_cons.mp hother with rfl | hother
      · exact hstep t ht htaken
      · exact hfree other hother t ht (mem_keys_take.mpr (.inl htaken))
    · exact hfree other hother t hmem (mem_keys_take.mpr (.inr ht))

theorem code_of_mem_stepProblems {place : Rule.Place} {taken : Taken} {i index : Nat}
    {steps : List Node} {finding : Nat × Diagnostic}
    (h : finding ∈ stepProblems place taken i index steps) :
    finding.2.code = .targetCollision := by
  induction steps generalizing taken i index with
  | nil => nomatch h
  | cons step rest ih =>
    rcases List.mem_append.mp h with h | h
    · obtain ⟨p, hp, rfl⟩ := List.mem_map.mp h
      obtain ⟨t, -, ht⟩ := List.mem_filterMap.mp hp
      obtain ⟨first, -, rfl⟩ := Option.map_eq_some_iff.mp ht
      rfl
    · exact ih h

/-- A tree in which no collision is reported has none. -/
theorem collisionless_of_structureProblems {n : Node}
    (h : ∀ finding ∈ (n.visits .root).flatMap structureProblems,
      finding.2.code ≠ .targetCollision) : n.Collisionless := by
  intro steps hsteps
  obtain ⟨visit, hvisit, hnode⟩ := Node.exists_visit_of_node_iff.mpr hsteps
  have hnone : stepProblems visit.place [] 0 (visit.index + 1) steps = [] := by
    refine List.eq_nil_iff_forall_not_mem.mpr fun finding hfinding => ?_
    refine h finding (List.mem_flatMap.mpr ⟨visit, hvisit, ?_⟩) (code_of_mem_stepProblems hfinding)
    rw [structureProblems, hnode]
    exact hfinding
  exact (disjoint_of_stepProblems hnone).2.imp fun hab t ha hb =>
    hab _ (Node.text_mem_targets ha) (Node.text_mem_targets hb)

/-! ## What is found -/

/-- What is found, check by check. -/
theorem mem_resolved {document : Rule.Document} {d : Diagnostic} :
    d ∈ resolved document ↔ ∃ visit ∈ document.root.visits .root,
      d ∈ pathProblems document visit ∨ d ∈ transformProblems visit ∨
        ∃ i, (i, d) ∈ structureProblems visit := by
  have hmem (finding : Finding) :
      finding ∈ findings document ↔ finding ∈ unordered document :=
    (List.mergeSort_perm _ _).mem_iff
  simp only [resolved, List.mem_map, hmem, unordered, List.mem_append, List.mem_flatMap]
  constructor
  · rintro ⟨⟨i, d⟩, (⟨visit, hvisit, d', hd', heq⟩ | ⟨visit, hvisit, d', hd', heq⟩) | h, rfl⟩
    · cases heq
      exact ⟨visit, hvisit, .inl hd'⟩
    · cases heq
      exact ⟨visit, hvisit, .inr (.inl hd')⟩
    · obtain ⟨visit, hvisit, hd⟩ := h
      exact ⟨visit, hvisit, .inr (.inr ⟨i, hd⟩)⟩
  · rintro ⟨visit, hvisit, hd | hd | ⟨i, hd⟩⟩
    · exact ⟨(visit.index, d), .inl (.inl ⟨visit, hvisit, d, hd, rfl⟩), rfl⟩
    · exact ⟨(visit.index, d), .inl (.inr ⟨visit, hvisit, d, hd, rfl⟩), rfl⟩
    · exact ⟨(i, d), .inr ⟨visit, hvisit, hd⟩, rfl⟩

/-! ## All findings are errors -/

theorem Problem.isError_diagnostic (p : Problem) (path : String) :
    (p.diagnostic path).isError = true := by
  cases p <;> rfl

theorem isError_of_mem_map {problems : List Problem} {path : String} {d : Diagnostic}
    (hd : d ∈ problems.map (·.diagnostic path)) : d.isError := by
  obtain ⟨p, -, rfl⟩ := List.mem_map.mp hd
  exact p.isError_diagnostic path

theorem isError_of_mem_pathProblems {document : Rule.Document} {visit : Visit} {d : Diagnostic}
    (hd : d ∈ pathProblems document visit) : d.isError := by
  unfold pathProblems at hd
  split at hd
  · rcases List.mem_append.mp hd with hd | hd
    · split at hd
      · exact isError_of_mem_map hd
      · nomatch hd
    · exact isError_of_mem_map hd
  · rcases List.mem_append.mp hd with hd | hd
    · exact isError_of_mem_map hd
    · exact isError_of_mem_map hd
  · exact isError_of_mem_map hd
  · obtain ⟨source, -, hd⟩ := List.mem_flatMap.mp hd
    exact isError_of_mem_map hd
  · nomatch hd
  · nomatch hd

theorem isError_of_mem_transformProblems {visit : Visit} {d : Diagnostic}
    (hd : d ∈ transformProblems visit) : d.isError := by
  unfold transformProblems at hd
  split at hd
  · obtain ⟨⟨call, i⟩, -, hd⟩ := List.mem_flatMap.mp hd
    exact isError_of_mem_map hd
  · nomatch hd

theorem isError_of_mem_stepProblems {place : Rule.Place} {taken : Taken} {i index : Nat}
    {steps : List Node} {finding : Finding}
    (h : finding ∈ stepProblems place taken i index steps) : finding.2.isError := by
  rw [Diagnostic.isError, Diagnostic.severity, code_of_mem_stepProblems h]
  rfl

theorem partProblems_eq (path : String) (i : Nat) (cs : List Condition) :
    partProblems path i cs = (cs.zipIdx i).flatMap fun e =>
      conditionProblems (path ++ ".conditions" ++ Rule.Step.indexText e.2) e.1 := by
  induction cs generalizing i with
  | nil => rfl
  | cons c cs ih => rw [partProblems, ih, List.zipIdx_cons, List.flatMap_cons]

theorem isError_of_mem_operandProblems {path op : String} {value : Value} {d : Diagnostic}
    (hd : d ∈ operandProblems path op value) : d.isError := by
  unfold operandProblems at hd
  split at hd
  · nomatch hd
  · nomatch hd
  · rw [List.mem_singleton.mp hd]
    exact Problem.isError_diagnostic _ _

theorem isError_of_mem_conditionProblems {path : String} {c : Condition} {d : Diagnostic}
    (hd : d ∈ conditionProblems path c) : d.isError := by
  have parts {op path : String} {cs : List Condition}
      (ih : ∀ c ∈ cs, ∀ {path}, d ∈ conditionProblems path c → d.isError)
      (hd : d ∈ (if cs.isEmpty then [(Problem.noConditions op).diagnostic path] else []) ++
        partProblems path 0 cs) : d.isError := by
    rw [partProblems_eq] at hd
    rcases List.mem_append.mp hd with hd | hd
    · split at hd
      · rw [List.mem_singleton.mp hd]
        exact Problem.isError_diagnostic _ _
      · nomatch hd
    · obtain ⟨⟨c, i⟩, hc, hd⟩ := List.mem_flatMap.mp hd
      exact ih c (List.fst_mem_of_mem_zipIdx hc) hd
  induction c using Condition.induct generalizing path with
  | equals | «exists» | literal => nomatch hd
  | greaterThan source value => exact isError_of_mem_operandProblems hd
  | lessThan source value => exact isError_of_mem_operandProblems hd
  | «matches» source text =>
    unfold conditionProblems at hd
    split at hd
    · nomatch hd
    · rw [List.mem_singleton.mp hd]
      exact Problem.isError_diagnostic _ _
  | not c ih => exact ih hd
  | and cs ih => exact parts ih hd
  | or cs ih => exact parts ih hd

theorem isError_of_mem_structureProblems {visit : Visit} {finding : Finding}
    (h : finding ∈ structureProblems visit) : finding.2.isError := by
  unfold structureProblems at h
  split at h
  · exact isError_of_mem_stepProblems h
  · obtain ⟨d, hd, rfl⟩ := List.mem_map.mp h
    exact isError_of_mem_conditionProblems hd
  · rw [List.mem_singleton.mp h]
    exact Problem.isError_diagnostic _ _
  · nomatch h

theorem isError_of_mem_resolved {document : Rule.Document} {d : Diagnostic}
    (hd : d ∈ resolved document) : d.isError := by
  obtain ⟨visit, -, hd | hd | ⟨i, hd⟩⟩ := mem_resolved.mp hd
  · exact isError_of_mem_pathProblems hd
  · exact isError_of_mem_transformProblems hd
  · exact isError_of_mem_structureProblems hd

/-! ## What passes can be lowered -/

theorem exists_source_of_sourceProblems {format : Format} {splits : Nat} {text : String}
    (h : sourceProblems format splits text = []) :
    ∃ p, SourcePath.parse text = .ok p ∧ p.wildcards ≤ splits := by
  unfold sourceProblems at h
  split at h
  · nomatch h
  · next p hp =>
    refine ⟨p, hp, Nat.not_lt.mp fun hlt => ?_⟩
    rw [if_pos hlt] at h
    nomatch h

theorem exists_target_of_targetProblems {format : Format} {text : String}
    (h : targetProblems format text = []) : ∃ t, TargetPath.parse text = .ok t := by
  unfold targetProblems at h
  split at h
  · nomatch h
  · next t ht => exact ⟨t, ht⟩

/-- A call that passes comes down to an operation whose placeholders find their splits. -/
theorem exists_operation_of_callProblems {splits : Nat} {call : Rule.Call}
    (h : callProblems splits call = []) :
    ∃ op, CallLowers call op ∧ ∀ p ∈ op.paths, p.wildcards ≤ splits := by
  unfold callProblems at h
  split at h
  · nomatch h
  · next t ht =>
    split at h
    · nomatch h
    · split at h
      · nomatch h
      · next op hop =>
        refine ⟨op, ⟨t, ht, hop⟩, fun p hp => ?_⟩
        rw [List.map_eq_nil_iff, List.filter_eq_nil_iff] at h
        simpa using h p hp

/-- A condition that passes comes down to a predicate if its sources can be read. -/
theorem exists_predicate_of_conditionProblems {path : String} {c : Condition}
    (hsources : ∀ source ∈ c.sources, ∃ p, SourcePath.parse source = .ok p)
    (h : conditionProblems path c = []) : ∃ p, ConditionLowers c p := by
  have parts {path : String} {cs : List Condition}
      (ih : ∀ c ∈ cs, ∀ {path}, (∀ source ∈ c.sources, ∃ p, SourcePath.parse source = .ok p) →
        conditionProblems path c = [] → ∃ p, ConditionLowers c p)
      (hsources : ∀ source ∈ Condition.listSources cs, ∃ p, SourcePath.parse source = .ok p)
      (h : partProblems path 0 cs = []) : ∃ ps, List.Forall₂ ConditionLowers cs ps := by
    rw [partProblems_eq, List.flatMap_eq_nil_iff] at h
    refine forall₂_of_forall_exists fun c hc => ?_
    obtain ⟨i, hi⟩ := List.getElem?_of_mem hc
    exact ih c hc (fun source hsource =>
      hsources source (Condition.mem_listSources.mpr ⟨c, hc, hsource⟩))
      (h (c, i) (List.mem_zipIdx_iff_getElem?.mpr hi))
  induction c using Condition.induct generalizing path with
  | literal value => exact ⟨_, .literal⟩
  | equals source value =>
    obtain ⟨p, hp⟩ := hsources source (List.mem_singleton_self _)
    exact ⟨_, .equals hp⟩
  | «exists» source =>
    obtain ⟨p, hp⟩ := hsources source (List.mem_singleton_self _)
    exact ⟨_, .exists hp⟩
  | greaterThan source value =>
    obtain ⟨p, hp⟩ := hsources source (List.mem_singleton_self _)
    exact ⟨_, .greaterThan hp⟩
  | lessThan source value =>
    obtain ⟨p, hp⟩ := hsources source (List.mem_singleton_self _)
    exact ⟨_, .lessThan hp⟩
  | «matches» source text =>
    obtain ⟨p, hp⟩ := hsources source (List.mem_singleton_self _)
    unfold conditionProblems at h
    split at h
    · next pattern hpattern => exact ⟨_, .matches hp hpattern⟩
    · nomatch h
  | not c ih =>
    obtain ⟨p, hp⟩ := ih hsources h
    exact ⟨_, .not hp⟩
  | and cs ih =>
    obtain ⟨ps, hps⟩ := parts ih hsources (List.append_eq_nil_iff.mp h).2
    exact ⟨_, .and hps⟩
  | or cs ih =>
    obtain ⟨ps, hps⟩ := parts ih hsources (List.append_eq_nil_iff.mp h).2
    exact ⟨_, .or hps⟩

/-- What the checks find nothing wrong with. -/
structure Passes (document : Rule.Document) (visit : Visit) : Prop where
  paths : pathProblems document visit = []
  calls : transformProblems visit = []
  structural : structureProblems visit = []

theorem resolved_eq_nil_iff {document : Rule.Document} :
    resolved document = [] ↔ ∀ visit ∈ document.root.visits .root, Passes document visit := by
  simp only [List.eq_nil_iff_forall_not_mem, mem_resolved]
  constructor
  · intro h visit hvisit
    refine ⟨?_, ?_, ?_⟩ <;> refine List.eq_nil_iff_forall_not_mem.mpr fun d hd => ?_
    · exact h d ⟨visit, hvisit, .inl hd⟩
    · exact h d ⟨visit, hvisit, .inr (.inl hd)⟩
    · exact h d.2 ⟨visit, hvisit, .inr (.inr ⟨d.1, hd⟩)⟩
  · rintro h d ⟨visit, hvisit, hd | hd | ⟨i, hd⟩⟩
    · rw [(h visit hvisit).paths] at hd
      nomatch hd
    · rw [(h visit hvisit).calls] at hd
      nomatch hd
    · rw [(h visit hvisit).structural] at hd
      nomatch hd

theorem Passes.callProblems_eq_nil {document : Rule.Document} {visit : Visit}
    (h : Passes document visit) {f : Rule.Field} (hnode : visit.node = .field f) {call : Rule.Call}
    (hcall : call ∈ f.transforms) : callProblems visit.splitDepth call = [] := by
  have hcalls := h.calls
  simp only [transformProblems, hnode, List.flatMap_eq_nil_iff, List.map_eq_nil_iff] at hcalls
  obtain ⟨i, hi⟩ := List.getElem?_of_mem hcall
  exact hcalls (call, i) (List.mem_zipIdx_iff_getElem?.mpr hi)

/-- A node that passes is readable, unless it is a reference. -/
theorem Passes.readable {document : Rule.Document} {visit : Visit} (h : Passes document visit)
    (hreference : ∀ name, visit.node ≠ .fragment name) : Readable visit.node := by
  have hpaths := h.paths
  have hstructure := h.structural
  cases hnode : visit.node with
  | field f =>
    simp only [pathProblems, hnode, List.append_eq_nil_iff, List.map_eq_nil_iff] at hpaths
    obtain ⟨t, ht⟩ := exists_target_of_targetProblems hpaths.2
    obtain ⟨operations, hoperations⟩ : ∃ operations, List.Forall₂ CallLowers f.transforms operations :=
      forall₂_of_forall_exists fun call hcall => by
        obtain ⟨op, hop, -⟩ := exists_operation_of_callProblems (h.callProblems_eq_nil hnode hcall)
        exact ⟨op, hop⟩
    obtain ⟨source, hsource⟩ : ∃ source, OriginLowers f.source source := by
      cases hf : f.source with
      | constant value => exact ⟨_, .constant⟩
      | path text =>
        rw [hf] at hpaths
        obtain ⟨p, hp, -⟩ := exists_source_of_sourceProblems (List.map_eq_nil_iff.mp hpaths.1)
        exact ⟨_, .path hp⟩
    exact ⟨⟨source, operations, t, f.optional⟩, hsource, hoperations, ht, rfl⟩
  | condition test yes no =>
    simp only [pathProblems, hnode, List.flatMap_eq_nil_iff, List.map_eq_nil_iff] at hpaths
    simp only [structureProblems, hnode, List.map_eq_nil_iff] at hstructure
    refine exists_predicate_of_conditionProblems (fun source hsource => ?_) hstructure
    obtain ⟨p, hp, -⟩ := exists_source_of_sourceProblems (hpaths source hsource)
    exact ⟨p, hp⟩
  | merge inputs policy target =>
    simp only [pathProblems, hnode, List.map_eq_nil_iff] at hpaths
    exact exists_target_of_targetProblems hpaths
  | split source item target =>
    simp only [pathProblems, hnode, List.append_eq_nil_iff, List.map_eq_nil_iff] at hpaths
    obtain ⟨p, hp, -⟩ := exists_source_of_sourceProblems hpaths.1
    exact ⟨⟨p, hp⟩, exists_target_of_targetProblems hpaths.2⟩
  | fragment name => exact absurd hnode (hreference name)
  | sequence steps => trivial

/-- A document that passes comes down to a plan tree, unless references are left in it. -/
theorem exists_lowers_of_resolved {document : Rule.Document} (h : resolved document = [])
    (hreferences : document.root.references = []) : ∃ p, Plan.Lowers document.root p := by
  refine Plan.exists_lowers fun m hm => ?_
  obtain ⟨visit, hvisit, rfl⟩ := Node.exists_visit_of_node_iff.mpr hm
  refine (resolved_eq_nil_iff.mp h visit hvisit).readable fun name hname => ?_
  exact Node.references_eq_nil.mp hreferences name (hname ▸ hm)

end Remap.Check
