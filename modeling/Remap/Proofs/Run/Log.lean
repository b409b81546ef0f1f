import Remap.Proofs.Run.Executions

/-!
# What a run reports

The log of an execution is put together from those of the executions that it starts, and from what
it reports itself (`log_eq`). The main statement is that the failures of
a run are those of its executions, in order, whatever the output was at the time (`failures_log`).
-/

namespace Remap.Run

namespace Log

variable {a b : Log}

@[simp] theorem diagnostics_append : (a ++ b).diagnostics = a.diagnostics ++ b.diagnostics := rfl

@[simp] theorem failures_append : (a ++ b).failures = a.failures ++ b.failures := rfl

@[simp] theorem empty_append (a : Log) : Log.empty ++ a = a := rfl

@[simp] theorem append_empty (a : Log) : a ++ Log.empty = a := by
  change mk (a.diagnostics ++ []) (a.failures ++ []) = a
  rw [List.append_nil, List.append_nil]

theorem append_assoc (a b c : Log) : a ++ b ++ c = a ++ (b ++ c) := by
  change mk (_ ++ _ ++ _) (_ ++ _ ++ _) = mk (_ ++ (_ ++ _)) (_ ++ (_ ++ _))
  rw [List.append_assoc, List.append_assoc]

/-- Nothing that is reported is an error. -/
def IsClean (log : Log) : Prop := ∀ d ∈ log.diagnostics, d.isError = false

theorem isClean_append : (a ++ b).IsClean ↔ a.IsClean ∧ b.IsClean := by
  simp only [IsClean, diagnostics_append, List.mem_append, or_imp, forall_and]

end Log

/-- A run ends without errors just if its log is clean. -/
theorem errors_eq_nil_iff {plan : Plan} {input : Value} :
    (execute plan input).errors = [] ↔ (start plan input).log.IsClean := by
  simp only [execute, Step.outcome, List.partition_eq_filter_filter, List.filter_eq_nil_iff,
    Log.IsClean, Bool.not_eq_true]

theorem errors_eq_nil_of_isSuccess {plan : Plan} {input : Value}
    (h : (execute plan input).isSuccess) : (execute plan input).errors = [] := by
  simp only [execute, Step.outcome, Outcome.isSuccess] at h ⊢
  split at h
  · next hempty => exact List.isEmpty_iff.mp hempty
  · cases h

theorem output_of_errors_eq_nil {plan : Plan} {input : Value}
    (h : (execute plan input).errors = []) :
    (execute plan input).output = some (start plan input).output := by
  simp only [execute, Step.outcome] at h ⊢
  rw [h]
  rfl

namespace Execution

/-- What an execution reports that begins with the output `before`. -/
def log (e : Execution) (before : Value) : Log := (exec e.scope e.place e.node before).log

/-- What executions report of which each begins with the output of the one before. -/
def handedOn : List Execution → Value → Log
  | [], _ => .empty
  | c :: cs, before => c.log before ++ handedOn cs (c.output before)

/-- What executions report of which each begins an output. -/
def apart : List Execution → Log
  | [] => .empty
  | c :: cs => c.log .null ++ apart cs

/-- Executions report a log in turn, each with some output to begin with. -/
inductive InTurn : List Execution → Log → Prop
  | nil : InTurn [] .empty
  | cons {c : Execution} {cs : List Execution} {log : Log} (before : Value) :
    InTurn cs log → InTurn (c :: cs) (c.log before ++ log)

/-- How the operations of an execution fail, if it is of a field and they do. -/
def failure? (e : Execution) : Option Failure :=
  match e.node with
  | .field f =>
    match origin e.scope f with
    | .error _ => none
    | .ok v =>
      match applyAll e.scope 0 v f.operations with
      | .value _ => none
      | .failed i op input _ => some ⟨e.place, i, op.transform, input⟩
  | .condition .. | .merge .. | .split .. | .sequence _ => none

/-! ## Logs of parts -/

theorem inTurn_handedOn (cs : List Execution) (before : Value) :
    InTurn cs (handedOn cs before) := by
  induction cs generalizing before with
  | nil => exact .nil
  | cons c cs ih => exact .cons before (ih (c.output before))

theorem inTurn_apart (cs : List Execution) : InTurn cs (apart cs) := by
  induction cs with
  | nil => exact .nil
  | cons c cs ih => exact .cons .null ih

theorem log_execSteps (e : Execution) (i : Nat) (steps : List Plan.Node) (before : Value) :
    (execSteps e.scope e.place i steps before).log =
      handedOn ((steps.zipIdx i).map fun (n, i) => e.step (.step i) n) before := by
  induction steps generalizing i before with
  | nil => rfl
  | cons n steps ih =>
    rw [List.zipIdx_cons, List.map_cons, handedOn, execSteps, ih]
    rfl

theorem log_execInputs (e : Execution) (i : Nat) (inputs : List Plan.Node) :
    (execInputs e.scope e.place i inputs).2 =
      apart ((inputs.zipIdx i).map fun (n, i) => e.branch (.input i) n) := by
  induction inputs generalizing i with
  | nil => rfl
  | cons n inputs ih =>
    rw [List.zipIdx_cons, List.map_cons, apart, execInputs, ← ih]
    rfl

theorem log_runItems (e : Execution) (item : Plan.Node) (k : Nat) (items : List Value) :
    (runItems (fun k v => exec (e.scope.enter v k) (e.place.down (.itemAt k)) item .null) k
        items).2 =
      apart ((items.zipIdx k).map fun (v, k) => e.item item v k) := by
  induction items generalizing k with
  | nil => rfl
  | cons v items ih =>
    rw [List.zipIdx_cons, List.map_cons, apart, runItems, ← ih]
    rfl

theorem failures_writeTo (before : Value) (target : TargetPath) (v : Value) (place : Rule.Place) :
    (writeTo before target v place).log.failures = [] := by
  simp only [writeTo]
  split <;> rfl

/-- A write of which no error is reported meets no conflict. -/
theorem conflict_of_isClean {before : Value} {target : TargetPath} {v : Value} {place : Rule.Place}
    (h : (writeTo before target v place).log.IsClean) :
    (Output.write before target v).conflict = none := by
  simp only [writeTo] at h
  split at h
  · next hnone => exact hnone
  · have herror := h _ (List.mem_singleton_self _)
    cases herror

/-! ## Logs of executions -/

/-- What an execution reports itself before those that it starts. -/
def opening (e : Execution) : Log :=
  match e.node with
  | .condition test _ _ =>
    ⟨(test.test e.scope).problems.map (·.diagnostic (e.place.text ++ ".when")), []⟩
  | .field _ | .merge .. | .split .. | .sequence _ => .empty

/-- What an execution that begins with the output `before` reports itself after those that it
starts. -/
def closing (e : Execution) (before : Value) : Log :=
  match e.node with
  | .field f => (runField e.scope e.place f before).log
  | .merge _ policy target =>
    let (combined, faults) := Merge.combine policy (e.children.map (output · .null))
    ⟨faults.map (·.diagnostic e.place.text), []⟩ ++
      if combined.isVacant && policy ≠ .appendArray then .empty
      else (writeTo before target combined e.place).log
  | .split source _ target =>
    match e.items source with
    | .error problem => .report problem e.place.text
    | .ok _ => (writeTo before target (.array (e.children.map (output · .null))) e.place).log
  | .condition .. | .sequence _ => .empty

/-- The log of an execution is made up of what it reports itself, and in between of what those that
it starts report, which are handed its output or begin outputs of their own. -/
theorem log_eq (e : Execution) (before : Value) :
    e.log before = e.opening ++ (if sharesOutput e.node then handedOn e.children before
      else apart e.children) ++ e.closing before := by
  cases hnode : e.node with
  | field f =>
    simp only [log, opening, closing, children, hnode, exec]
    rfl
  | condition test yes no =>
    cases no with
    | none =>
      simp only [log, opening, closing, children, hnode, exec, sharesOutput, if_true,
        Log.append_empty]
      split
      · rw [handedOn, handedOn, Log.append_empty]; rfl
      · exact (Log.append_empty _).symm
    | some no =>
      simp only [log, opening, closing, children, hnode, exec, sharesOutput, if_true,
        Log.append_empty]
      split
      · rw [handedOn, handedOn, Log.append_empty]; rfl
      · change _ = _ ++ handedOn [e.step .no no] before
        rw [handedOn, handedOn, Log.append_empty]; rfl
  | merge inputs policy target =>
    have hbranches : (execInputs e.scope e.place 0 inputs).1 = e.children.map (output · .null) := by
      rw [outputs_execInputs, children, hnode, List.map_map]
      rfl
    have hlog : (execInputs e.scope e.place 0 inputs).2 = apart e.children := by
      rw [log_execInputs, children, hnode]
    simp only [log, opening, closing, hnode, exec, sharesOutput, Bool.false_eq_true, if_false,
      Log.empty_append, hbranches, hlog]
    split
    · rw [Log.append_empty]
    · rw [Log.append_assoc]
  | split source item target =>
    simp only [log, opening, closing, children, hnode, exec, sharesOutput, Bool.false_eq_true,
      if_false, Log.empty_append]
    cases hitems : e.items source with
    | error problem =>
      rw [items] at hitems
      simp only [hitems]
      rfl
    | ok items =>
      have houtputs : (items.zipIdx.map fun (v, k) => e.item item v k).map (output · .null) =
          items.zipIdx.map fun (v, k) =>
            (exec (e.scope.enter v k) (e.place.down (.itemAt k)) item .null).output := by
        rw [List.map_map]
        rfl
      rw [Execution.items] at hitems
      simp only [hitems, houtputs, outputs_runItems, log_runItems]
  | sequence steps =>
    simp only [opening, closing, children, hnode, sharesOutput, if_true, Log.empty_append,
      Log.append_empty]
    rw [log, hnode, exec, log_execSteps]

/-- Whether they share its output or not, those that an execution starts report in turn. -/
theorem exists_inTurn (e : Execution) (before : Value) :
    ∃ inner, InTurn e.children inner ∧
      e.log before = e.opening ++ inner ++ e.closing before := by
  refine ⟨_, ?_, e.log_eq before⟩
  split
  · exact inTurn_handedOn e.children before
  · exact inTurn_apart e.children

theorem failures_opening (e : Execution) : e.opening.failures = [] := by
  unfold opening
  split <;> rfl

theorem failures_closing (e : Execution) (before : Value) :
    (e.closing before).failures = e.failure?.toList := by
  cases hnode : e.node with
  | field f =>
    simp only [closing, failure?, hnode, runField]
    cases origin e.scope f with
    | error source => rfl
    | ok v =>
      simp only
      cases applyAll e.scope 0 v f.operations with
      | value v => exact failures_writeTo ..
      | failed i op input failure => rfl
  | merge inputs policy target =>
    simp only [closing, failure?, hnode, Log.failures_append]
    split
    · rfl
    · exact failures_writeTo ..
  | split source item target =>
    simp only [closing, failure?, hnode]
    split
    · rfl
    · exact failures_writeTo ..
  | condition test yes no => simp only [closing, failure?, hnode]; rfl
  | sequence steps => simp only [closing, failure?, hnode]; rfl

/-- Where an execution reports no error itself, its write meets no conflict. -/
theorem conflict_of_closing {e : Execution} {before : Value} (h : (e.closing before).IsClean) :
    ∀ w ∈ e.write?, (Output.write before w.1 w.2).conflict = none := by
  intro w hw
  cases hnode : e.node with
  | field f =>
    simp only [write?, hnode] at hw
    simp only [closing, hnode, runField] at h
    split at hw
    · cases hw
    · next v horigin =>
      rw [horigin] at h
      split at hw
      · next v hvalue =>
        cases hw
        simp only [hvalue] at h
        exact conflict_of_isClean h
      · cases hw
  | merge inputs policy target =>
    simp only [write?, hnode] at hw
    simp only [closing, hnode] at h
    split at hw
    · cases hw
    · next hfull =>
      cases hw
      rw [if_neg hfull] at h
      exact conflict_of_isClean (Log.isClean_append.mp h).2
  | split source item target =>
    simp only [write?, hnode] at hw
    simp only [closing, hnode] at h
    split at hw
    · next items hitems =>
      cases hw
      simp only [hitems] at h
      exact conflict_of_isClean h
    · cases hw
  | condition test yes no => rw [write?, hnode] at hw; cases hw
  | sequence steps => rw [write?, hnode] at hw; cases hw

/-- Where an output is shared, an execution reports nothing itself after those that share it. -/
theorem log_of_shares {e : Execution} (h : sharesOutput e.node = true) (before : Value) :
    e.log before = e.opening ++ handedOn e.children before := by
  have hclosing : e.closing before = .empty := by
    cases hnode : e.node with
    | condition test yes no => rw [closing, hnode]
    | sequence steps => rw [closing, hnode]
    | field f => rw [hnode] at h; cases h
    | merge inputs policy target => rw [hnode] at h; cases h
    | split source item target => rw [hnode] at h; cases h
  rw [log_eq, h, if_pos rfl, hclosing, Log.append_empty]

/-- Where an output is not shared, an execution reports nothing itself before those that it
starts. -/
theorem log_of_not_shares {e : Execution} (h : sharesOutput e.node = false) (before : Value) :
    e.log before = apart e.children ++ e.closing before := by
  have hopening : e.opening = .empty := by
    cases hnode : e.node with
    | condition test yes no => rw [hnode] at h; cases h
    | field f => rw [opening, hnode]
    | merge inputs policy target => rw [opening, hnode]
    | split source item target => rw [opening, hnode]
    | sequence steps => rw [opening, hnode]
  rw [log_eq, h, if_neg Bool.false_ne_true, hopening, Log.empty_append]

/-! ## Failures -/

theorem InTurn.failures_eq {cs : List Execution} {log : Log} (h : InTurn cs log)
    {failures : Execution → List Failure}
    (hcs : ∀ c ∈ cs, ∀ before, (c.log before).failures = failures c) :
    log.failures = cs.flatMap failures := by
  induction h with
  | nil => rfl
  | cons before _ ih =>
    obtain ⟨hc, hcs⟩ := List.forall_mem_cons.mp hcs
    rw [Log.failures_append, hc, ih hcs, List.flatMap_cons]

/-- The failures that an execution reports are its own and those of all that follow from it. The
output that it begins with does not matter. -/
theorem failures_log (e : Execution) (before : Value) :
    (e.log before).failures = e.executions.filterMap failure? := by
  induction e using induct generalizing before with
  | start e ih =>
    obtain ⟨inner, hinner, hlog⟩ := e.exists_inTurn before
    have hparts : (e.log before).failures =
        (e.children.flatMap fun c => c.executions.filterMap failure?) ++ e.failure?.toList := by
      rw [hlog, Log.failures_append, Log.failures_append, failures_opening, failures_closing,
        List.nil_append, hinner.failures_eq fun c hc before => ih c hc before]
    have hall : e.executions.filterMap failure? =
        e.failure?.toList ++ e.children.flatMap fun c => c.executions.filterMap failure? := by
      rw [executions_eq, List.filterMap_cons, List.filterMap_flatMap]
      cases e.failure? <;> rfl
    rw [hparts, hall]
    -- Only a field fails itself, and it starts no executions.
    cases hnode : e.node with
    | field f => rw [children, hnode]; exact (List.append_nil _).symm
    | condition | merge | split | sequence => rw [failure?, hnode]; exact List.append_nil _

end Execution

end Remap.Run
