import Remap.Proofs.Run.Log
import Remap.Proofs.Run.Output
import Remap.Proofs.Run.Paths
import Remap.Proofs.Run.Targets

/-!
# Reports and places

A report tells by its path which execution it is of: no two executions stand at one place
(`eq_of_text_eq`), and the errors with which fields and writes end are reported at the places of
executions (`exists_of_isFieldError`). A field that reports anything writes nothing (`runField_eq`).
-/

namespace Remap

/-- Whether a code is that of an error with which a field ends. -/
def Code.isFieldError : Code → Bool
  | requiredSourceMissing | transformFailed | targetWriteConflict => true
  | _ => false

/-- What a predicate reports is that values have no order. -/
theorem Plan.Predicate.eq_incomparable_of_mem_problems {scope : Run.Scope} {q : Plan.Predicate}
    {p : Run.Problem} (hp : p ∈ (q.test scope).problems) :
    ∃ op found expected, p = .incomparable op found expected := by
  have horder {op : String} {wanted : Ordering} {found : Option Value} {value : Value}
      (hp : p ∈ (testOrder op wanted found value).problems) :
      ∃ op found expected, p = .incomparable op found expected := by
    unfold testOrder at hp
    split at hp
    · cases hp
    · split at hp
      · cases hp
      · exact ⟨_, _, _, List.mem_singleton.mp hp⟩
  induction q using induct with
  | equals | «exists» | «matches» | literal => cases hp
  | greaterThan source value | lessThan source value => exact horder hp
  | not q ih => exact ih hp
  | and qs ih =>
    rw [test] at hp
    induction qs with
    | nil => cases hp
    | cons q qs ihqs =>
      simp only [testAll] at hp
      split at hp
      · rcases List.mem_append.mp hp with hp | hp
        · exact ih q List.mem_cons_self hp
        · exact ihqs (fun q hq => ih q (List.mem_cons_of_mem _ hq)) hp
      · exact ih q List.mem_cons_self hp
  | or qs ih =>
    rw [test] at hp
    induction qs with
    | nil => cases hp
    | cons q qs ihqs =>
      simp only [testAny] at hp
      split at hp
      · exact ih q List.mem_cons_self hp
      · rcases List.mem_append.mp hp with hp | hp
        · exact ih q List.mem_cons_self hp
        · exact ihqs (fun q hq => ih q (List.mem_cons_of_mem _ hq)) hp

namespace Run

/-! ## A field that fails -/

/-- A field reports nothing, or it reports one thing and writes nothing. -/
theorem runField_eq {scope : Scope} {place : Rule.Place} {f : Plan.Field} {output : Value}
    (hplain : .wildcard ∉ f.target.segments) :
    (runField scope place f output).log.diagnostics = [] ∨
      ∃ d, (runField scope place f output).log.diagnostics = [d] ∧ d.path = place.text ∧
        (runField scope place f output).output = output := by
  unfold runField
  cases origin scope f with
  | error source => exact .inr ⟨_, rfl, rfl, rfl⟩
  | ok v =>
    simp only
    cases applyAll scope 0 v f.operations with
    | failed i op input failure => exact .inr ⟨_, rfl, rfl, rfl⟩
    | value v =>
      simp only [writeTo]
      cases hconflict : (Output.write output f.target v).conflict with
      | none => exact .inl rfl
      | some conflict =>
        have hsome : (Output.write output f.target v).conflict ≠ none := by
          rw [hconflict]
          exact Option.some_ne_none _
        exact .inr ⟨_, rfl, rfl, Output.tree_write_of_conflict hplain hsome⟩

namespace Execution

/-! ## Places of executions -/

theorem place_of_mem_executions {e x : Execution} (hx : x ∈ e.executions) :
    ∃ steps, x.place = e.place.below steps := by
  refine of_mem_executions (P := fun x => ∃ steps, x.place = e.place.below steps) ?_
    ⟨[], Rule.Place.below_nil.symm⟩ hx
  intro x ⟨steps, hplace⟩ c hc
  obtain ⟨-, ⟨s, hc⟩, -⟩ := of_mem_children hc
  exact ⟨steps ++ [s], by rw [hc, hplace, Rule.Place.down_eq_below, Rule.Place.below_below]⟩

/-- What follows from an execution that is started stands below the one that starts it. -/
theorem place_of_mem_child {e c x : Execution} (hc : c ∈ e.children) (hx : x ∈ c.executions) :
    ∃ s steps, c.place = e.place.down s ∧ x.place = e.place.below (s :: steps) := by
  obtain ⟨-, ⟨s, hplace⟩, -⟩ := of_mem_children hc
  obtain ⟨steps, hbelow⟩ := place_of_mem_executions hx
  exact ⟨s, steps, hplace, by rw [hbelow, hplace, Rule.Place.below_down]⟩

theorem text_ne_of_mem_child {e c x : Execution} (hc : c ∈ e.children) (hx : x ∈ c.executions) :
    x.place.text ≠ e.place.text := by
  obtain ⟨s, steps, -, hplace⟩ := place_of_mem_child hc hx
  intro htext
  have heq := Rule.Place.text_inj (by rw [hplace]; rfl) htext
  rw [hplace] at heq
  have hnil : s :: steps = [] := Rule.Place.below_inj.mp (heq.trans Rule.Place.below_nil.symm)
  cases hnil

/-- What follows from executions at different places stands at different places. -/
theorem text_ne_of_mem_children {e c d x y : Execution} (hc : c ∈ e.children)
    (hd : d ∈ e.children) (hne : c.place ≠ d.place) (hx : x ∈ c.executions)
    (hy : y ∈ d.executions) : x.place.text ≠ y.place.text := by
  obtain ⟨s, steps, hcplace, hxplace⟩ := place_of_mem_child hc hx
  obtain ⟨t, others, hdplace, hyplace⟩ := place_of_mem_child hd hy
  intro htext
  have heq := Rule.Place.text_inj (by rw [hxplace, hyplace]; rfl) htext
  rw [hxplace, hyplace, Rule.Place.below_inj] at heq
  rw [hcplace, hdplace, List.head_eq_of_cons_eq heq] at hne
  exact hne rfl

/-- No two executions that follow from one stand at one place. -/
theorem eq_of_text_eq {e x y : Execution} (hx : x ∈ e.executions) (hy : y ∈ e.executions)
    (htext : x.place.text = y.place.text) : x = y := by
  induction e using induct with
  | start e ih =>
    have : Std.Symm fun c d : Execution => c.place ≠ d.place := ⟨fun _ _ => Ne.symm⟩
    rw [mem_executions] at hx hy
    rcases hx with hx | ⟨c, hc, hx⟩
    · rcases hy with hy | ⟨d, hd, hy⟩
      · rw [hx, hy]
      · rw [hx] at htext
        exact absurd htext.symm (text_ne_of_mem_child hd hy)
    · rcases hy with hy | ⟨d, hd, hy⟩
      · rw [hy] at htext
        exact absurd htext (text_ne_of_mem_child hc hx)
      · by_cases heq : c = d
        · subst heq
          exact ih c hc hx hy
        · have hne : c.place ≠ d.place := e.pairwise_place_ne.forall hc hd heq
          exact absurd htext (text_ne_of_mem_children hc hd hne hx hy)

/-! ## Paths of reports -/

/-- What an execution reports before those that it starts is that values have no order. -/
theorem code_of_mem_opening {e : Execution} {d : Diagnostic} (hd : d ∈ e.opening.diagnostics) :
    d.code = .conditionTypeMismatch := by
  unfold opening at hd
  split at hd
  · obtain ⟨p, hp, rfl⟩ := List.mem_map.mp hd
    obtain ⟨op, found, expected, rfl⟩ := Plan.Predicate.eq_incomparable_of_mem_problems hp
    rfl
  all_goals cases hd

theorem isFieldError_of_mem_opening {e : Execution} {d : Diagnostic}
    (hd : d ∈ e.opening.diagnostics) : d.code.isFieldError = false := by
  rw [code_of_mem_opening hd]
  rfl

/-- What a field starts from is absent, or what a split goes over is no array. -/
def Stuck (e : Execution) : Prop :=
  match e.node with
  | .field f => ∃ text, origin e.scope f = .error text
  | .split source _ _ => ∃ problem, e.items source = .error problem
  | .condition .. | .merge .. | .sequence _ => False

/-- What an execution reports at its end is a fault among branches, or it is at its own place: that
it is stuck, that a transform fails or that its write meets a conflict. -/
theorem mem_closing_cases {e : Execution} {before : Value} {d : Diagnostic}
    (hd : d ∈ (e.closing before).diagnostics) :
    (∃ fault : MergeFault, d = fault.diagnostic e.place.text) ∨
      d.path = e.place.text ∧
        (e.Stuck ∨ d.code = .transformFailed ∨ d.code = .targetWriteConflict) := by
  have hwrite {target : TargetPath} {v : Value}
      (hd : d ∈ (writeTo before target v e.place).log.diagnostics) :
      d.path = e.place.text ∧ d.code = .targetWriteConflict := by
    simp only [writeTo] at hd
    split at hd
    · cases hd
    · rw [List.mem_singleton.mp hd]
      exact ⟨rfl, rfl⟩
  cases hnode : e.node with
  | field f =>
    simp only [closing, hnode, runField] at hd
    split at hd
    · next text htext =>
      rw [List.mem_singleton.mp hd]
      refine .inr ⟨rfl, .inl ?_⟩
      rw [Stuck, hnode]
      exact ⟨text, htext⟩
    · split at hd
      · obtain ⟨hpath, hcode⟩ := hwrite hd
        exact .inr ⟨hpath, .inr (.inr hcode)⟩
      · rw [List.mem_singleton.mp hd]
        exact .inr ⟨rfl, .inr (.inl rfl)⟩
  | merge inputs policy target =>
    simp only [closing, hnode] at hd
    rcases List.mem_append.mp hd with hd | hd
    · obtain ⟨fault, -, rfl⟩ := List.mem_map.mp hd
      exact .inl ⟨fault, rfl⟩
    · split at hd
      · cases hd
      · obtain ⟨hpath, hcode⟩ := hwrite hd
        exact .inr ⟨hpath, .inr (.inr hcode)⟩
  | split source item target =>
    simp only [closing, hnode] at hd
    split at hd
    · next problem hproblem =>
      rw [List.mem_singleton.mp hd]
      refine .inr ⟨rfl, .inl ?_⟩
      rw [Stuck, hnode]
      exact ⟨problem, hproblem⟩
    · obtain ⟨hpath, hcode⟩ := hwrite hd
      exact .inr ⟨hpath, .inr (.inr hcode)⟩
  | condition | sequence =>
    rw [closing, hnode] at hd
    cases hd

/-- A field error that an execution reports at its end is at its own place. -/
theorem path_of_mem_closing {e : Execution} {before : Value} {d : Diagnostic}
    (hd : d ∈ (e.closing before).diagnostics) (herror : d.code.isFieldError = true) :
    d.path = e.place.text := by
  rcases mem_closing_cases hd with ⟨fault, rfl⟩ | ⟨hpath, -⟩
  · cases fault <;> cases herror
  · exact hpath

theorem InTurn.exists_of_mem {cs : List Execution} {log : Log} (h : InTurn cs log) {d : Diagnostic}
    (hd : d ∈ log.diagnostics) : ∃ c ∈ cs, ∃ before, d ∈ (c.log before).diagnostics := by
  induction h with
  | nil => cases hd
  | @cons c cs log before _ ih =>
    rcases List.mem_append.mp hd with hd | hd
    · exact ⟨c, List.mem_cons_self, before, hd⟩
    · obtain ⟨c', hc', hreport⟩ := ih hd
      exact ⟨c', List.mem_cons_of_mem _ hc', hreport⟩

theorem InTurn.exists_subset {cs : List Execution} {log : Log} (h : InTurn cs log) {c : Execution}
    (hc : c ∈ cs) : ∃ before, (c.log before).diagnostics ⊆ log.diagnostics := by
  induction h with
  | nil => cases hc
  | cons before _ ih =>
    rcases List.mem_cons.mp hc with rfl | hc
    · exact ⟨before, List.subset_append_left ..⟩
    · obtain ⟨before, hsubset⟩ := ih hc
      exact ⟨before, List.subset_append_of_subset_right _ hsubset⟩

/-- What an execution reports, with some output to begin with, is reported by each execution that it
follows from. -/
theorem exists_diagnostics_subset {e x : Execution} (hx : x ∈ e.executions) (before : Value) :
    ∃ before', (x.log before').diagnostics ⊆ (e.log before).diagnostics := by
  induction e using induct generalizing before with
  | start e ih =>
    obtain rfl | ⟨c, hc, hx⟩ := mem_executions.mp hx
    · exact ⟨before, List.Subset.refl _⟩
    · obtain ⟨inner, hinner, hlog⟩ := e.exists_inTurn before
      obtain ⟨handed, hhanded⟩ := hinner.exists_subset hc
      obtain ⟨before', hsubset⟩ := ih c hc hx handed
      refine ⟨before', List.Subset.trans hsubset ?_⟩
      rw [hlog, Log.diagnostics_append, Log.diagnostics_append]
      exact List.subset_append_of_subset_left _ (List.subset_append_of_subset_right _ hhanded)

/-- All that is reported is reported by an execution itself, before or after those that it
starts. -/
theorem exists_of_mem_log {e : Execution} {before : Value} {d : Diagnostic}
    (hd : d ∈ (e.log before).diagnostics) :
    ∃ x ∈ e.executions,
      d ∈ x.opening.diagnostics ∨ ∃ before, d ∈ (x.closing before).diagnostics := by
  induction e using induct generalizing before with
  | start e ih =>
    obtain ⟨inner, hinner, hlog⟩ := e.exists_inTurn before
    rw [hlog, Log.diagnostics_append, Log.diagnostics_append] at hd
    rcases List.mem_append.mp hd with hd | hd
    · rcases List.mem_append.mp hd with hd | hd
      · exact ⟨e, e.self_mem_executions, .inl hd⟩
      · obtain ⟨c, hc, before, hd⟩ := hinner.exists_of_mem hd
        obtain ⟨x, hx, hown⟩ := ih c hc hd
        exact ⟨x, mem_executions_of_mem_children hc hx, hown⟩
    · exact ⟨e, e.self_mem_executions, .inr ⟨before, hd⟩⟩

/-- A field error that is reported is at the place of an execution. -/
theorem exists_of_isFieldError {e : Execution} {before : Value} {d : Diagnostic}
    (hd : d ∈ (e.log before).diagnostics) (herror : d.code.isFieldError = true) :
    ∃ x ∈ e.executions, d.path = x.place.text := by
  obtain ⟨x, hx, hopening | ⟨before, hclosing⟩⟩ := exists_of_mem_log hd
  · rw [isFieldError_of_mem_opening hopening] at herror
    cases herror
  · exact ⟨x, hx, path_of_mem_closing hclosing herror⟩

end Execution

end Run

end Remap
