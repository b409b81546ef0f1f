import Remap.Proofs.Plan.Alike
import Remap.Proofs.Run.Log

/-!
# Running plans that are alike

Plans that differ in their fields alone execute the same nodes, in the same scopes and at the same
places, whatever the fields do (`Execution.Alike.executions`). Where each field does what the other
does without errors, so does the plan (`exec_alike`).
-/

namespace Remap.Run

open Plan (Node)

/-! ## The same effect -/

/-- One field does what another does, wherever the other reports no error. -/
def FieldPreserves (f f' : Plan.Field) : Prop :=
  ∀ scope place output, (runField scope place f output).log.IsClean →
    runField scope place f' output = runField scope place f output

/-- One plan tree does what another does, wherever the other reports no error. -/
def Preserves (p p' : Node) : Prop :=
  ∀ scope place output, (exec scope place p output).log.IsClean →
    exec scope place p' output = exec scope place p output

theorem runItems_eq {run run' : Nat → Value → Step}
    (h : ∀ k v, (run k v).log.IsClean → run' k v = run k v) {k : Nat} {items : List Value}
    (hclean : (runItems run k items).2.IsClean) : runItems run' k items = runItems run k items := by
  induction items generalizing k with
  | nil => rfl
  | cons v items ih =>
    obtain ⟨hfirst, hrest⟩ := Log.isClean_append.mp hclean
    simp only [runItems, h k v hfirst, ih hrest]

theorem execSteps_eq {ps ps' : List Node} (h : List.Forall₂ Preserves ps ps') {scope : Scope}
    {place : Rule.Place} {i : Nat} {output : Value}
    (hclean : (execSteps scope place i ps output).log.IsClean) :
    execSteps scope place i ps' output = execSteps scope place i ps output := by
  induction h generalizing i output with
  | nil => rfl
  | cons hp _ ih =>
    obtain ⟨hfirst, hrest⟩ := Log.isClean_append.mp hclean
    simp only [execSteps, hp _ _ _ hfirst, ih hrest]

theorem execInputs_eq {ps ps' : List Node} (h : List.Forall₂ Preserves ps ps') {scope : Scope}
    {place : Rule.Place} {i : Nat} (hclean : (execInputs scope place i ps).2.IsClean) :
    execInputs scope place i ps' = execInputs scope place i ps := by
  induction h generalizing i with
  | nil => rfl
  | cons hp _ ih =>
    obtain ⟨hfirst, hrest⟩ := Log.isClean_append.mp hclean
    simp only [execInputs, hp _ _ _ hfirst, ih hrest]

/-- A plan does what another does without errors, if its fields do. -/
theorem exec_alike {p p' : Node} (h : Node.Alike FieldPreserves p p') : Preserves p p' := by
  refine h.induct (motive := Preserves) ?field ?ifThen ?ifElse ?merge ?split ?sequence
  case field =>
    intro f f' hf scope place output hclean
    exact hf scope place output hclean
  case ifThen =>
    intro test yes yes' ih scope place output hclean
    simp only [exec] at hclean ⊢
    split at hclean
    · rw [ih _ _ _ (Log.isClean_append.mp hclean).2]
    · next hfails => simp only [hfails, Bool.false_eq_true, if_false]
  case ifElse =>
    intro test yes no yes' no' ihyes ihno scope place output hclean
    simp only [exec] at hclean ⊢
    have hstep := (Log.isClean_append.mp hclean).2
    split at hstep
    · next hholds => simp only [if_pos hholds, ihyes _ _ _ hstep]
    · next hfails => simp only [if_neg hfails, ihno _ _ _ hstep]
  case merge =>
    intro inputs inputs' policy target ih scope place output hclean
    have hinputs : (execInputs scope place 0 inputs).2.IsClean := by
      simp only [exec] at hclean
      split at hclean
      · exact (Log.isClean_append.mp hclean).1
      · exact (Log.isClean_append.mp (Log.isClean_append.mp hclean).1).1
    simp only [exec, execInputs_eq ih hinputs]
  case split =>
    intro source item item' target ih scope place output hclean
    simp only [exec] at hclean ⊢
    split at hclean
    · rfl
    · next items hitems =>
      rw [runItems_eq (fun k v => ih _ _ _) (Log.isClean_append.mp hclean).1]
  case sequence =>
    intro steps steps' ih scope place output hclean
    exact execSteps_eq ih hclean

/-- A run that succeeds has the same outcome if the fields do what the others did without errors. -/
theorem execute_alike {plan : Plan} {p : Node} (h : Node.Alike FieldPreserves plan.root p)
    {input : Value} (hsuccess : (execute plan input).isSuccess) :
    execute { plan with root := p } input = execute plan input := by
  have hclean : (start plan input).log.IsClean :=
    errors_eq_nil_iff.mp (errors_eq_nil_of_isSuccess hsuccess)
  have hstart : start { plan with root := p } input = start plan input :=
    exec_alike h _ _ _ hclean
  rw [execute, hstart, execute]

/-! ## The same executions -/

namespace Execution

/-- Executions in the same scope and at the same place, of nodes that are alike. -/
structure Alike (S : Plan.Field → Plan.Field → Prop) (e e' : Execution) : Prop where
  scope : e'.scope = e.scope
  tree : e'.tree = e.tree
  place : e'.place = e.place
  node : Node.Alike S e.node e'.node

variable {S : Plan.Field → Plan.Field → Prop}

theorem alike_top {plan : Plan} {p : Node} (h : Node.Alike S plan.root p) (input : Value) :
    Alike S (top plan input) (top { plan with root := p } input) := ⟨rfl, rfl, rfl, h⟩

/-- Executions that are alike start executions that are, in the same order. -/
theorem Alike.children {e e' : Execution} (h : Alike S e e') :
    List.Forall₂ (Alike S) e.children e'.children := by
  obtain ⟨scope, tree, place, node⟩ := e
  obtain ⟨scope', tree', place', node'⟩ := e'
  obtain ⟨hscope, htree, hplace, hnode⟩ := h
  cases hscope
  cases htree
  cases hplace
  have numbered {ps ps' : List Node} (start : Nat → Node → Execution)
      (hstart : ∀ i p p', Node.Alike S p p' → Alike S (start i p) (start i p'))
      (hps : List.Forall₂ (Node.Alike S) ps ps') (i : Nat) :
      List.Forall₂ (Alike S) ((ps.zipIdx i).map fun e => start e.2 e.1)
        ((ps'.zipIdx i).map fun e => start e.2 e.1) := by
    induction hps generalizing i with
    | nil => exact .nil
    | cons hp _ ih => exact .cons (hstart i _ _ hp) (ih (i + 1))
  cases hnode with
  | field => exact .nil
  | @ifThen test yes yes' hyes =>
    simp only [Execution.children]
    split
    · exact .cons ⟨rfl, rfl, rfl, hyes⟩ .nil
    · exact .nil
  | @ifElse test yes no yes' no' hyes hno =>
    simp only [Execution.children]
    split
    · exact .cons ⟨rfl, rfl, rfl, hyes⟩ .nil
    · exact .cons ⟨rfl, rfl, rfl, hno⟩ .nil
  | merge hinputs =>
    exact numbered (fun i p => branch ⟨scope, tree, place, p⟩ (.input i) p)
      (fun i p p' hp => ⟨rfl, rfl, rfl, hp⟩) hinputs 0
  | @split source item item' target hitem =>
    simp only [Execution.children, items]
    split
    · refine List.forall₂_map_left_iff.mpr (List.forall₂_map_right_iff.mpr ?_)
      exact List.forall₂_same.mpr fun entry _ => ⟨rfl, rfl, rfl, hitem⟩
    · exact .nil
  | sequence hsteps =>
    exact numbered (fun i p => step ⟨scope, tree, place, p⟩ (.step i) p)
      (fun i p p' hp => ⟨rfl, rfl, rfl, hp⟩) hsteps 0

/-- All that follows from executions that are alike is alike, one by one. -/
theorem Alike.executions {e e' : Execution} (h : Alike S e e') :
    List.Forall₂ (Alike S) e.executions e'.executions := by
  induction e using induct generalizing e' with
  | start e ih =>
    have hall : ∀ {cs cs' : List Execution}, cs ⊆ e.children → List.Forall₂ (Alike S) cs cs' →
        List.Forall₂ (Alike S) (cs.flatMap Execution.executions)
          (cs'.flatMap Execution.executions) := by
      intro cs cs' hsub hcs
      induction hcs with
      | nil => exact .nil
      | cons hc _ ihcs =>
        obtain ⟨hmem, hrest⟩ := List.cons_subset.mp hsub
        exact List.rel_append (ih _ hmem hc) (ihcs hrest)
    rw [executions_eq, executions_eq]
    exact .cons h (hall (List.Subset.refl _) h.children)

end Execution

end Remap.Run
