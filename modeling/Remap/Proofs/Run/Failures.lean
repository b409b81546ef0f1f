import Remap.Proofs.Fragment.Expansion
import Remap.Proofs.Run.Log
import Remap.Proofs.Run.Wildcards

/-!
# Failures

A chain of operations fails at the first that has no result (`applyAll_eq_failed_iff`). The main
statement is that a field may be changed behind an operation without a change to how that operation
fails (`failure?_iff_of_take`).
-/

namespace Remap.Run

/-! ## Where operations fail -/

section

variable {scope : Scope} {i k : Nat} {v w input : Value} {operations operations' : List Operation}
  {op : Operation} {cause : Operation.Failure}

/-- A chain fails at an operation that has no result for what those in front of it have made. -/
theorem applyAll_eq_failed_iff : applyAll scope i v operations = .failed k op input cause ↔
    ∃ n, k = i + n ∧ operations[n]? = some op ∧
      applyAll scope i v (operations.take n) = .value input ∧
      op.apply scope.resolve? input = .error cause := by
  induction operations generalizing i v with
  | nil => exact iff_of_false (fun h => nomatch h) fun ⟨_, _, hop, _⟩ => nomatch hop
  | cons first rest ih =>
    rw [applyAll]
    cases hfirst : first.apply scope.resolve? v with
    | ok next =>
      simp only
      rw [ih]
      constructor
      · rintro ⟨n, rfl, hop, hinput, hcause⟩
        refine ⟨n + 1, by omega, hop, ?_, hcause⟩
        simp only [List.take_succ_cons, applyAll, hfirst, hinput]
      · rintro ⟨n, rfl, hop, hinput, hcause⟩
        cases n with
        | zero =>
          cases hop
          cases hinput
          rw [hfirst] at hcause
          cases hcause
        | succ n =>
          simp only [List.take_succ_cons, applyAll, hfirst] at hinput
          exact ⟨n, by omega, hop, hinput, hcause⟩
    | error failure =>
      simp only
      constructor
      · rintro ⟨⟩
        exact ⟨0, rfl, rfl, rfl, hfirst⟩
      · rintro ⟨n, rfl, hop, hinput, hcause⟩
        cases n with
        | zero =>
          cases hop
          cases hinput
          rw [hfirst] at hcause
          cases hcause
          rfl
        | succ n =>
          simp only [List.take_succ_cons, applyAll, hfirst] at hinput
          cases hinput

/-- Chains fail alike that are the same up to the operation that fails. -/
theorem applyAll_failed_of_take
    (htake : operations'.take (k + 1) = operations.take (k + 1))
    (h : applyAll scope 0 v operations = .failed k op input cause) :
    applyAll scope 0 v operations' = .failed k op input cause := by
  obtain ⟨n, hn, hop, hinput, hcause⟩ := applyAll_eq_failed_iff.mp h
  rw [Nat.zero_add] at hn
  subst hn
  refine applyAll_eq_failed_iff.mpr ⟨k, (Nat.zero_add k).symm, ?_, ?_, hcause⟩
  · have hself := congrArg (·[k]?) htake
    simp only [List.getElem?_take_of_succ] at hself
    rw [hself, hop]
  · have hbefore := congrArg (List.take k) htake
    simp only [List.take_take, Nat.min_eq_left (Nat.le_succ k)] at hbefore
    rw [hbefore, hinput]

theorem exists_apply_of_applyAll_append (h : applyAll scope i v (operations ++ [op]) = .value w) :
    ∃ u, op.apply scope.resolve? u = .ok w := by
  induction operations generalizing i v with
  | nil =>
    rw [List.nil_append, applyAll] at h
    split at h
    · next next hnext =>
      cases h
      exact ⟨v, hnext⟩
    · cases h
  | cons first rest ih =>
    rw [List.cons_append, applyAll] at h
    split at h
    · exact ih h
    · cases h

/-- An operation that fails behind another was given what that one made. -/
theorem exists_apply_of_applyAll_failed
    (h : applyAll scope 0 v operations = .failed (k + 1) op input cause) {before : Operation}
    (hbefore : operations[k]? = some before) : ∃ u, before.apply scope.resolve? u = .ok input := by
  obtain ⟨n, hn, -, hinput, -⟩ := applyAll_eq_failed_iff.mp h
  rw [Nat.zero_add] at hn
  subst hn
  rw [List.take_add_one, hbefore] at hinput
  exact exists_apply_of_applyAll_append hinput

end

namespace Execution

theorem failure?_eq_some_iff {e : Execution} {f : Failure} : e.failure? = some f ↔
    ∃ g v op cause, e.node = .field g ∧ origin e.scope g = .ok v ∧
      applyAll e.scope 0 v g.operations = .failed f.index op f.input cause ∧
      f.place = e.place ∧ f.transform = op.transform := by
  constructor
  · intro h
    unfold failure? at h
    split at h
    · next g hg =>
      split at h
      · cases h
      · next v hv =>
        split at h
        · cases h
        · next i op input cause happly =>
          cases h
          exact ⟨g, v, op, cause, hg, hv, happly, rfl, rfl⟩
    all_goals cases h
  · rintro ⟨g, v, op, cause, hnode, horigin, happly, hplace, htransform⟩
    simp only [failure?, hnode, horigin, happly, ← hplace, ← htransform]

theorem place_of_failure? {e : Execution} {f : Failure} (h : e.failure? = some f) :
    f.place = e.place := by
  obtain ⟨_, _, _, _, -, -, -, hplace, -⟩ := failure?_eq_some_iff.mp h
  exact hplace

theorem failure?_of_take {e e' : Execution} (hscope : e'.scope = e.scope)
    (hplace : e'.place = e.place) {g g' : Plan.Field} (hnode : e.node = .field g)
    (hnode' : e'.node = .field g') (hsource : g'.source = g.source) {f : Failure}
    (htake : g'.operations.take (f.index + 1) = g.operations.take (f.index + 1))
    (h : e.failure? = some f) : e'.failure? = some f := by
  obtain ⟨g, v, op, cause, heq, horigin, happly, hat, htransform⟩ := failure?_eq_some_iff.mp h
  rw [hnode] at heq
  cases heq
  have hhead : g'.operations.head? = g.operations.head? := by
    have := congrArg List.head? htake
    rwa [List.head?_take, List.head?_take, if_neg (Nat.succ_ne_zero _),
      if_neg (Nat.succ_ne_zero _)] at this
  have horigin' : origin e'.scope g' = .ok v := by
    simp only [origin, startsWithDefault, hscope, hsource, hhead]
    exact horigin
  refine failure?_eq_some_iff.mpr ⟨g', v, op, cause, hnode', horigin', ?_, ?_, htransform⟩
  · rw [hscope]
    exact applyAll_failed_of_take htake happly
  · rw [hplace, hat]

/-- A field that reads the same and begins with the same operations fails alike at any of those. -/
theorem failure?_iff_of_take {e e' : Execution} (hscope : e'.scope = e.scope)
    (hplace : e'.place = e.place) {g g' : Plan.Field} (hnode : e.node = .field g)
    (hnode' : e'.node = .field g') (hsource : g'.source = g.source) {f : Failure}
    (htake : g'.operations.take (f.index + 1) = g.operations.take (f.index + 1)) :
    e.failure? = some f ↔ e'.failure? = some f :=
  ⟨failure?_of_take hscope hplace hnode hnode' hsource htake,
    failure?_of_take hscope.symm hplace.symm hnode' hnode hsource.symm htake.symm⟩

theorem failures_start (plan : Plan) (input : Value) :
    (start plan input).log.failures = (top plan input).executions.filterMap failure? :=
  failures_log (top plan input) (.object [])

/-! ## A document's own fields -/

theorem tree_of_mem_executions_top {plan : Plan} {input : Value} {e : Execution}
    (he : e ∈ (top plan input).executions) : e.place.tree = Rule.Place.root.tree := by
  refine of_mem_executions (P := fun e => e.place.tree = Rule.Place.root.tree) ?_ rfl he
  intro e he c hc
  obtain ⟨-, ⟨s, hplace⟩, -⟩ := of_mem_children hc
  rw [hplace]
  exact he

/-- A field of a document's own tree is what an execution at its place came from. -/
theorem exists_fieldLowers {source : Fragment.Source} {document : Rule.Document} {plan : Plan}
    (hplan : Plan.compile source document = .ok plan) {input : Value} {e : Execution}
    (he : e ∈ (top plan input).executions) {f : Rule.Field}
    (hf : document.root.find? e.place.static.steps = some (.field f)) :
    ∃ g, e.node = .field g ∧ Plan.FieldLowers f g := by
  obtain ⟨-, root, p, hexpands, -, hlowers, rfl⟩ := Plan.compile_eq_ok_iff_expands.mp hplan
  have hfollows : Follows root e :=
    of_mem_executions (fun _ h _ hc => h.of_mem_children hc)
      ⟨root, hlowers, List.Subset.refl _⟩ he
  obtain ⟨m, hm, hplaced⟩ := hfollows
  obtain ⟨steps, -, hplace, hfind⟩ :=
    Rule.Node.find?_of_mem_placed (hplaced (Rule.Node.mem_placed_self _ _ m))
  have hsteps : e.place.static.steps = steps := by
    rw [hplace]
    exact List.nil_append _
  rw [hsteps] at hf
  -- Above a field of the document's own tree stands no fragment, so the expansion has it as well.
  rw [hexpands.find?_field hf] at hfind
  cases hfind
  generalize e.node = node at hm
  cases hm with
  | field hg => exact ⟨_, rfl, hg⟩

/-- How an execution of a document's own field fails. -/
theorem exists_failed {source : Fragment.Source} {document : Rule.Document} {plan : Plan}
    (hplan : Plan.compile source document = .ok plan) {input : Value} {e : Execution}
    (he : e ∈ (top plan input).executions) {failure : Failure}
    (hfailure : e.failure? = some failure) {f : Rule.Field}
    (hf : document.root.find? e.place.static.steps = some (.field f)) :
    ∃ operations v op cause, List.Forall₂ Plan.CallLowers f.transforms operations ∧
      applyAll e.scope 0 v operations = .failed failure.index op failure.input cause ∧
      failure.transform = op.transform := by
  obtain ⟨g, hnode, hg⟩ := exists_fieldLowers hplan he hf
  obtain ⟨g', v, op, cause, hnode', -, happly, -, htransform⟩ := failure?_eq_some_iff.mp hfailure
  rw [hnode] at hnode'
  cases hnode'
  exact ⟨g.operations, v, op, cause, hg.operations, happly, htransform⟩

/-- The call of a field at which what the field came down to fails. -/
theorem exists_call_of_lowers {e : Execution} {failure : Failure}
    (hfailure : e.failure? = some failure) {f : Rule.Field} {g : Plan.Field}
    (hnode : e.node = .field g) (hlowers : Plan.FieldLowers f g) :
    ∃ call, f.transforms[failure.index]? = some call ∧
      Transform.ofName? call.name = some failure.transform := by
  obtain ⟨g', v, op, cause, hnode', -, happly, -, htransform⟩ := failure?_eq_some_iff.mp hfailure
  rw [hnode] at hnode'
  cases hnode'
  obtain ⟨j, hj, hop, -⟩ := applyAll_eq_failed_iff.mp happly
  rw [Nat.zero_add] at hj
  obtain ⟨call, hcall, hname⟩ := forall₂_getElem? hlowers.operations hop
  exact ⟨call, hj ▸ hcall, htransform ▸ hname.ofName?_name⟩

/-- The call of a document's own field at which an execution fails. -/
theorem exists_call_of_failure {source : Fragment.Source} {document : Rule.Document} {plan : Plan}
    (hplan : Plan.compile source document = .ok plan) {input : Value} {e : Execution}
    (he : e ∈ (top plan input).executions) {failure : Failure}
    (hfailure : e.failure? = some failure) {f : Rule.Field}
    (hf : document.root.find? e.place.static.steps = some (.field f)) :
    ∃ call, f.transforms[failure.index]? = some call ∧
      Transform.ofName? call.name = some failure.transform := by
  obtain ⟨g, hnode, hlowers⟩ := exists_fieldLowers hplan he hf
  exact exists_call_of_lowers hfailure hnode hlowers

end Execution

end Remap.Run
