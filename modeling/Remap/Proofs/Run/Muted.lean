import Remap.Proofs.Path.Grammar
import Remap.Proofs.Run.Reports

/-!
# Failures are local

The main statement is that fields which fail whenever they are executed do not matter to the rest of
a run: a run in which they do nothing puts out the same and reports the same otherwise
(`failures_are_local`). A field that fails writes nothing, so that the output is handed on as it
was; and which reports are those of a field is told by their paths.
-/

namespace Remap

namespace Plan

namespace Node

mutual

/-- A tree at a place, of which the fields at some places do nothing. -/
def mute (S : Rule.Place → Bool) (place : Rule.Place) : Node → Node
  | field f => if S place then sequence [] else field f
  | condition test yes none => condition test (mute S (place.down .yes) yes) none
  | condition test yes (some no) =>
    condition test (mute S (place.down .yes) yes) (some (mute S (place.down .no) no))
  | merge inputs policy target => merge (muteAll S place .input 0 inputs) policy target
  | split source item target => split source (mute S (place.down .item) item) target
  | sequence steps => sequence (muteAll S place .step 0 steps)

/-- Trees one step below a place, of which the first has number `i`. -/
def muteAll (S : Rule.Place → Bool) (place : Rule.Place) (step : Nat → Rule.Step) (i : Nat) :
    List Node → List Node
  | [] => []
  | n :: ns => mute S (place.down (step i)) n :: muteAll S place step (i + 1) ns

end

mutual

/-- The targets that a tree may write to. -/
def targets : Node → List TargetPath
  | field f => [f.target]
  | condition _ yes none => targets yes
  | condition _ yes (some no) => targets yes ++ targets no
  | merge inputs _ target => target :: listTargets inputs
  | split _ item target => target :: targets item
  | sequence steps => listTargets steps

/-- The targets that the trees of a list may write to. -/
def listTargets : List Node → List TargetPath
  | [] => []
  | n :: ns => targets n ++ listTargets ns

end

theorem zipIdx_muteAll (S : Rule.Place → Bool) (place : Rule.Place) (step : Nat → Rule.Step)
    (i : Nat) (ns : List Node) : (muteAll S place step i ns).zipIdx i =
      (ns.zipIdx i).map fun (n, i) => (mute S (place.down (step i)) n, i) := by
  induction ns generalizing i with
  | nil => rfl
  | cons n ns ih => rw [muteAll, List.zipIdx_cons, List.zipIdx_cons, List.map_cons, ih]

theorem targets_subset_listTargets {n : Node} {ns : List Node} (h : n ∈ ns) :
    n.targets ⊆ listTargets ns := by
  induction ns with
  | nil => cases h
  | cons m ns ih =>
    rw [listTargets]
    rcases List.mem_cons.mp h with rfl | h
    · exact List.subset_append_left _ _
    · exact List.Subset.trans (ih h) (List.subset_append_right _ _)

end Node

/-- The targets of a plan are read from those of its rules, so that they have no wildcards. -/
theorem Lowers.wildcard_notMem {n : Rule.Node} {p : Node} (h : Lowers n p) :
    ∀ t ∈ p.targets, .wildcard ∉ t.segments := by
  refine Lowers.rec (motive_1 := fun _ p _ => ∀ t ∈ p.targets, .wildcard ∉ t.segments)
    (motive_2 := fun _ ps _ => ∀ t ∈ Node.listTargets ps, .wildcard ∉ t.segments)
    ?field ?ifThen ?ifElse ?merge ?split ?sequence ?nil ?cons h
  case field =>
    intro f g hf t ht
    rw [List.mem_singleton.mp ht]
    exact (TargetPath.parse_eq_ok_iff.mp hf.target).2
  case ifThen =>
    intro test p yes yes' _ _ ih
    exact ih
  case ifElse =>
    intro test p yes no yes' no' _ _ _ ihyes ihno t ht
    rcases List.mem_append.mp ht with ht | ht
    · exact ihyes t ht
    · exact ihno t ht
  case merge =>
    intro inputs inputs' policy target t hparse _ ih u hu
    rcases List.mem_cons.mp hu with rfl | hu
    · exact (TargetPath.parse_eq_ok_iff.mp hparse).2
    · exact ih u hu
  case split =>
    intro source target s t item item' _ hparse _ ih u hu
    rcases List.mem_cons.mp hu with rfl | hu
    · exact (TargetPath.parse_eq_ok_iff.mp hparse).2
    · exact ih u hu
  case sequence =>
    intro steps steps' _ ih
    exact ih
  case nil =>
    intro t ht
    cases ht
  case cons =>
    intro n p ns ps _ _ ih ihs t ht
    rcases List.mem_append.mp ht with ht | ht
    · exact ih t ht
    · exact ihs t ht

end Plan

/-- A plan of which the fields at some places do nothing. -/
def Plan.mute (plan : Plan) (S : Rule.Place → Bool) : Plan :=
  { plan with root := plan.root.mute S .root }

namespace Run.Execution

/-! ## Fields that do nothing -/

/-- Whether an execution is of a field at one of some places of the tree. -/
def isOf (S : Rule.Place → Bool) (e : Execution) : Bool :=
  match e.node with
  | .field _ => S e.place.static
  | .condition .. | .merge .. | .split .. | .sequence _ => false

/-- An execution for which the fields at some places of the tree do nothing. -/
def mute (S : Rule.Place → Bool) (e : Execution) : Execution :=
  { e with node := e.node.mute S e.place.static }

variable {S : Rule.Place → Bool} {Q : String → Bool} {e : Execution} {before : Value}

theorem children_mute : (e.mute S).children = e.children.map (mute S) := by
  cases hnode : e.node with
  | field f =>
    simp only [children, mute, hnode, Plan.Node.mute]
    cases S e.place.static <;> rfl
  | condition test yes no =>
    cases no with
    | none =>
      simp only [children, mute, hnode, Plan.Node.mute]
      split
      · simp only [List.map_singleton, mute, step, Rule.Place.static_down, Rule.Step.static]
      · rfl
    | some no =>
      simp only [children, mute, hnode, Plan.Node.mute]
      split <;> simp [mute, step, Rule.Step.static]
  | merge inputs policy target =>
    simp only [children, mute, hnode, Plan.Node.mute, Plan.Node.zipIdx_muteAll, List.map_map]
    refine List.map_congr_left fun entry _ => ?_
    simp [mute, branch, Rule.Step.static]
  | split source item target =>
    simp only [children, mute, hnode, Plan.Node.mute, items]
    split
    · rw [List.map_map]
      refine List.map_congr_left fun entry _ => ?_
      simp [mute, Execution.item, branch, Rule.Step.static]
    · rfl
  | sequence steps =>
    simp only [children, mute, hnode, Plan.Node.mute, Plan.Node.zipIdx_muteAll, List.map_map]
    refine List.map_congr_left fun entry _ => ?_
    simp [mute, step, Rule.Step.static]

theorem opening_mute : (e.mute S).opening = e.opening := by
  cases hnode : e.node with
  | field f =>
    simp only [opening, mute, hnode, Plan.Node.mute]
    cases S e.place.static <;> rfl
  | condition test yes no => cases no <;> simp only [opening, mute, hnode, Plan.Node.mute]
  | merge | split | sequence => simp only [opening, mute, hnode, Plan.Node.mute]

theorem sharesOutput_mute (h : e.isOf S = false) :
    sharesOutput (e.mute S).node = sharesOutput e.node := by
  cases hnode : e.node with
  | field f =>
    simp only [isOf, hnode] at h
    simp only [mute, hnode, Plan.Node.mute, h, Bool.false_eq_true, if_false]
  | condition test yes no => cases no <;> simp only [mute, hnode, Plan.Node.mute, sharesOutput]
  | merge | split | sequence => simp only [mute, hnode, Plan.Node.mute, sharesOutput]

/-- An execution reports the same at its end and writes the same, if the outputs that are begun
below it are the same. -/
theorem closing_mute (before : Value) (h : e.isOf S = false)
    (houtputs : sharesOutput e.node = false →
      (e.mute S).children.map (output · .null) = e.children.map (output · .null)) :
    (e.mute S).closing before = e.closing before ∧ (e.mute S).write? = e.write? := by
  cases hnode : e.node with
  | field f =>
    simp only [isOf, hnode] at h
    have hsame : e.mute S = e := by
      simp only [mute, hnode, Plan.Node.mute, h, Bool.false_eq_true, if_false]
      rw [← hnode]
    rw [hsame]
    exact ⟨rfl, rfl⟩
  | condition test yes no =>
    cases no <;> simp only [closing, write?, mute, hnode, Plan.Node.mute, and_self]
  | sequence steps => simp only [closing, write?, mute, hnode, Plan.Node.mute, and_self]
  | merge inputs policy target =>
    have hmute : (e.mute S).node = .merge (Plan.Node.muteAll S e.place.static .input 0 inputs)
        policy target := by rw [mute, hnode, Plan.Node.mute]
    have houtputs := houtputs (by rw [hnode]; rfl)
    simp only [closing, write?, hmute, hnode, houtputs]
    exact ⟨rfl, trivial⟩
  | split source item target =>
    have hmute : (e.mute S).node = .split source
        (item.mute S (e.place.static.down .item)) target := by rw [mute, hnode, Plan.Node.mute]
    have houtputs := houtputs (by rw [hnode]; rfl)
    simp only [closing, write?, hmute, hnode, houtputs]
    exact ⟨rfl, rfl⟩

/-! ## Reports of others -/

/-- Each execution of a field at one of some places reports an error in a log. -/
def Fails (S : Rule.Place → Bool) (e : Execution) (log : Log) : Prop :=
  ∀ x ∈ e.executions, x.isOf S = true →
    ∃ d ∈ log.diagnostics, d.code.isFieldError = true ∧ d.path = x.place.text

/-- No field error of a log is at the place of an execution or of one that follows from it. -/
def Foreign (e : Execution) (log : Log) : Prop :=
  ∀ d ∈ log.diagnostics, d.code.isFieldError = true → ∀ x ∈ e.executions, d.path ≠ x.place.text

theorem Fails.of_append_left {a b : Log} (h : e.Fails S (a ++ b)) (hb : e.Foreign b) :
    e.Fails S a := by
  intro x hx hof
  obtain ⟨d, hd, herror, hpath⟩ := h x hx hof
  rcases List.mem_append.mp hd with hd | hd
  · exact ⟨d, hd, herror, hpath⟩
  · exact absurd hpath (hb d hd herror x hx)

theorem Fails.of_append_right {a b : Log} (h : e.Fails S (a ++ b)) (ha : e.Foreign a) :
    e.Fails S b := by
  intro x hx hof
  obtain ⟨d, hd, herror, hpath⟩ := h x hx hof
  rcases List.mem_append.mp hd with hd | hd
  · exact absurd hpath (ha d hd herror x hx)
  · exact ⟨d, hd, herror, hpath⟩

/-- Two executions from which nothing follows that stands at one place. -/
def Disjoint (c d : Execution) : Prop :=
  ∀ x ∈ c.executions, ∀ y ∈ d.executions, x.place.text ≠ y.place.text

theorem pairwise_disjoint (e : Execution) : e.children.Pairwise Disjoint :=
  e.pairwise_place_ne.imp_of_mem fun hc hd hne _ hx _ hy => text_ne_of_mem_children hc hd hne hx hy

theorem Disjoint.foreign {c d : Execution} (h : c.Disjoint d) : d.Foreign (c.log before) := by
  intro report hreport herror y hy
  obtain ⟨x, hx, hpath⟩ := exists_of_isFieldError hreport herror
  rw [hpath]
  exact h x hx y hy

theorem InTurn.foreign {cs : List Execution} {log : Log} (hlog : InTurn cs log) {c : Execution}
    (h : ∀ d ∈ cs, c.Disjoint d) : c.Foreign log := by
  intro report hreport herror x hx
  obtain ⟨d, hd, before, hreport⟩ := hlog.exists_of_mem hreport
  obtain ⟨y, hy, hpath⟩ := exists_of_isFieldError hreport herror
  rw [hpath]
  exact (h d hd x hx y hy).symm

/-- What an execution reports itself is of none that it starts. -/
theorem foreign_of_mem_children {c : Execution} (before : Value) (hc : c ∈ e.children) :
    c.Foreign e.opening ∧ c.Foreign (e.closing before) := by
  constructor
  · intro d hd herror
    rw [isFieldError_of_mem_opening hd] at herror
    cases herror
  · intro d hd herror x hx
    rw [path_of_mem_closing hd herror]
    exact (text_ne_of_mem_child hc hx).symm

/-! ## The rest of a run -/

/-- Whether a report is no field error at one of some paths. -/
def isOther (Q : String → Bool) (d : Diagnostic) : Bool := !(d.code.isFieldError && Q d.path)

/-- An execution for which the fields at some places do nothing has the same output, and reports
what is reported otherwise. -/
structure Unmoved (S : Rule.Place → Bool) (Q : String → Bool) (e : Execution) (before : Value) :
    Prop where
  output : (e.mute S).output before = e.output before
  log : ((e.mute S).log before).diagnostics = (e.log before).diagnostics.filter (isOther Q)

theorem handedOn_mute {cs : List Execution} (hdisjoint : cs.Pairwise Disjoint)
    (hcs : ∀ c ∈ cs, ∀ before, c.Fails S (c.log before) → c.Unmoved S Q before)
    (hfails : ∀ c ∈ cs, c.Fails S (handedOn cs before)) :
    (cs.map (mute S)).foldl (fun before c => c.output before) before =
        cs.foldl (fun before c => c.output before) before ∧
      (handedOn (cs.map (mute S)) before).diagnostics =
        (handedOn cs before).diagnostics.filter (isOther Q) := by
  induction cs generalizing before with
  | nil => exact ⟨rfl, rfl⟩
  | cons c cs ih =>
    obtain ⟨hc, hrest⟩ := List.pairwise_cons.mp hdisjoint
    have hfirst := hcs c List.mem_cons_self before
      ((hfails c List.mem_cons_self).of_append_left ((inTurn_handedOn ..).foreign hc))
    obtain ⟨houtput, hlog⟩ := ih hrest (fun d hd => hcs d (List.mem_cons_of_mem _ hd))
      fun d hd => (hfails d (List.mem_cons_of_mem _ hd)).of_append_right (hc d hd).foreign
    rw [List.map_cons, List.foldl_cons, List.foldl_cons, handedOn, handedOn, hfirst.output, houtput,
      Log.diagnostics_append, Log.diagnostics_append, List.filter_append, hfirst.log, hlog]
    exact ⟨rfl, rfl⟩

theorem apart_mute {cs : List Execution} (hdisjoint : cs.Pairwise Disjoint)
    (hcs : ∀ c ∈ cs, ∀ before, c.Fails S (c.log before) → c.Unmoved S Q before)
    (hfails : ∀ c ∈ cs, c.Fails S (apart cs)) :
    (cs.map (mute S)).map (output · .null) = cs.map (output · .null) ∧
      (apart (cs.map (mute S))).diagnostics = (apart cs).diagnostics.filter (isOther Q) := by
  induction cs with
  | nil => exact ⟨rfl, rfl⟩
  | cons c cs ih =>
    obtain ⟨hc, hrest⟩ := List.pairwise_cons.mp hdisjoint
    have hfirst := hcs c List.mem_cons_self .null
      ((hfails c List.mem_cons_self).of_append_left ((inTurn_apart _).foreign hc))
    obtain ⟨houtput, hlog⟩ := ih hrest (fun d hd => hcs d (List.mem_cons_of_mem _ hd))
      fun d hd => (hfails d (List.mem_cons_of_mem _ hd)).of_append_right (hc d hd).foreign
    rw [List.map_cons, List.map_cons, List.map_cons, apart, apart, hfirst.output, houtput,
      Log.diagnostics_append, Log.diagnostics_append, List.filter_append, hfirst.log, hlog]
    exact ⟨rfl, rfl⟩

/-- A field that fails may as well do nothing. -/
theorem unmoved_of_isOf (hof : e.isOf S = true) (hQ : Q e.place.text = true)
    (hplain : ∀ f, e.node = .field f → .wildcard ∉ f.target.segments)
    (hfails : e.Fails S (e.log before)) : e.Unmoved S Q before := by
  obtain ⟨d, hd, herror, -⟩ := hfails e e.self_mem_executions hof
  cases hnode : e.node with
  | condition | merge | split | sequence => rw [isOf, hnode] at hof; cases hof
  | field f =>
    rw [isOf, hnode] at hof
    have hmute : (e.mute S).node = .sequence [] := by
      rw [mute, hnode, Plan.Node.mute, if_pos hof]
    simp only [log, hnode, exec] at hd
    rcases runField_eq (hplain f hnode) with hnone | ⟨d', hone, hpath, houtput⟩
    · rw [hnone] at hd
      cases hd
    · rw [hone] at hd
      cases List.mem_singleton.mp hd
      constructor
      · simp only [output, hmute, hnode, exec, execSteps, houtput]
      · have hother : isOther Q d = false := by rw [isOther, herror, hpath, hQ]; rfl
        simp only [log, hmute, hnode, exec, execSteps, hone, List.filter_cons, hother]
        rfl

theorem filter_opening (Q : String → Bool) (e : Execution) :
    e.opening.diagnostics.filter (isOther Q) = e.opening.diagnostics := by
  refine List.filter_eq_self.mpr fun d hd => ?_
  rw [isOther, isFieldError_of_mem_opening hd]
  rfl

/-- What an execution reports at its end stays if none of the paths is that of its own place. -/
theorem filter_closing (hQ : Q e.place.text = false) (before : Value) :
    (e.closing before).diagnostics.filter (isOther Q) = (e.closing before).diagnostics := by
  refine List.filter_eq_self.mpr fun d hd => ?_
  cases herror : d.code.isFieldError with
  | false => rw [isOther, herror]; rfl
  | true => rw [isOther, path_of_mem_closing hd herror, hQ, Bool.and_false]; rfl

/-- An execution that is of no field at one of the places is unmoved if all that it starts are. -/
theorem unmoved_of_children (hof : e.isOf S = false) (hQ : Q e.place.text = false)
    (hchildren : ∀ c ∈ e.children, ∀ before, c.Fails S (c.log before) → c.Unmoved S Q before)
    (hfails : ∀ c ∈ e.children, c.Fails S (e.log before)) : e.Unmoved S Q before := by
  have hsame := sharesOutput_mute hof
  have hrest : ∀ c ∈ e.children, c.Fails S
      (if sharesOutput e.node then handedOn e.children before else apart e.children) := by
    intro c hc
    have hc' := hfails c hc
    obtain ⟨hopening, hclosing⟩ := foreign_of_mem_children before hc
    rw [log_eq] at hc'
    exact (hc'.of_append_left hclosing).of_append_right hopening
  cases hshares : sharesOutput e.node with
  | true =>
    rw [hshares, if_pos rfl] at hrest
    obtain ⟨houtput, hlog⟩ := handedOn_mute e.pairwise_disjoint hchildren hrest
    obtain ⟨hclosing, -⟩ := closing_mute before hof fun h => by
      rw [hshares] at h
      cases h
    constructor
    · rw [output_of_shares (hsame.trans hshares), output_of_shares hshares, children_mute, houtput]
    · rw [log_eq, log_eq e, hsame, hshares, if_pos rfl, if_pos rfl, children_mute, opening_mute,
        hclosing]
      simp only [Log.diagnostics_append, List.filter_append, filter_opening, filter_closing hQ, hlog]
  | false =>
    rw [hshares, if_neg Bool.false_ne_true] at hrest
    obtain ⟨houtputs, hlog⟩ := apart_mute e.pairwise_disjoint hchildren hrest
    obtain ⟨hclosing, hwrite⟩ := closing_mute before hof fun _ => by
      rw [children_mute, houtputs]
    constructor
    · rw [output_of_not_shares (hsame.trans hshares), output_of_not_shares hshares, hwrite]
    · rw [log_eq, log_eq e, hsame, hshares, if_neg Bool.false_ne_true, if_neg Bool.false_ne_true,
        children_mute, opening_mute, hclosing]
      simp only [Log.diagnostics_append, List.filter_append, filter_opening, filter_closing hQ, hlog]

/-- Where the fields at some places fail whenever they are executed, all else is as if they did
nothing. -/
theorem unmoved (hQ : ∀ x ∈ e.executions, Q x.place.text = x.isOf S)
    (hplain : ∀ x ∈ e.executions, ∀ f, x.node = .field f → .wildcard ∉ f.target.segments)
    (hfails : e.Fails S (e.log before)) : e.Unmoved S Q before := by
  induction e using induct generalizing before with
  | start e ih =>
    have hself := e.self_mem_executions
    have hbelow {c x : Execution} (hc : c ∈ e.children) (hx : x ∈ c.executions) :
        x ∈ e.executions := mem_executions_of_mem_children hc hx
    cases hof : e.isOf S with
    | true => exact unmoved_of_isOf hof ((hQ e hself).trans hof) (hplain e hself) hfails
    | false =>
      refine unmoved_of_children hof ((hQ e hself).trans hof) (fun c hc before hfails => ?_)
        fun c hc x hx => hfails x (hbelow hc hx)
      exact ih c hc (fun x hx => hQ x (hbelow hc hx)) (fun x hx => hplain x (hbelow hc hx)) hfails

/-! ## Fields that fail each time -/

theorem targets_subset_of_mem_children {e c : Execution} (hc : c ∈ e.children) :
    c.node.targets ⊆ e.node.targets := by
  cases hnode : e.node with
  | field f =>
    rw [children, hnode] at hc
    cases hc
  | condition test yes no =>
    simp only [children, hnode] at hc
    cases no with
    | none =>
      split at hc
      · rw [List.mem_singleton.mp hc]
        exact List.Subset.refl _
      · cases hc
    | some no =>
      split at hc
      · rw [List.mem_singleton.mp hc]
        exact List.subset_append_left _ _
      · rw [List.mem_singleton.mp hc]
        exact List.subset_append_right _ _
  | merge inputs policy target =>
    simp only [children, hnode] at hc
    obtain ⟨entry, hentry, rfl⟩ := List.mem_map.mp hc
    exact List.subset_cons_of_subset _
      (Plan.Node.targets_subset_listTargets (List.fst_mem_of_mem_zipIdx hentry))
  | split source item target =>
    simp only [children, hnode] at hc
    split at hc
    · obtain ⟨entry, -, rfl⟩ := List.mem_map.mp hc
      exact List.subset_cons_self _ _
    · cases hc
  | sequence steps =>
    simp only [children, hnode] at hc
    obtain ⟨entry, hentry, rfl⟩ := List.mem_map.mp hc
    exact Plan.Node.targets_subset_listTargets (List.fst_mem_of_mem_zipIdx hentry)

theorem targets_subset_of_mem_executions {e x : Execution} (hx : x ∈ e.executions) :
    x.node.targets ⊆ e.node.targets :=
  of_mem_executions (P := fun x => x.node.targets ⊆ e.node.targets)
    (fun _ hx _ hc => List.Subset.trans (targets_subset_of_mem_children hc) hx)
    (List.Subset.refl _) hx

/-- Fields that report an error whenever they are executed may as well do nothing: the run then
puts out the same, and it reports all else that was reported, in the same order. -/
theorem failures_are_local (plan : Plan) (input : Value) (S : Rule.Place → Bool)
    (htargets : ∀ t ∈ plan.root.targets, .wildcard ∉ t.segments)
    (hfails : ∀ e ∈ (top plan input).executions, e.isOf S = true →
      ∃ d ∈ (start plan input).log.diagnostics,
        d.code.isFieldError = true ∧ d.path = e.place.text) :
    (start (plan.mute S) input).output = (start plan input).output ∧
      (start (plan.mute S) input).log.diagnostics =
        (start plan input).log.diagnostics.filter fun d =>
          !(d.code.isFieldError &&
            (top plan input).executions.any fun e => e.isOf S && e.place.text == d.path) := by
  let Q : String → Bool := fun path =>
    (top plan input).executions.any fun e => e.isOf S && e.place.text == path
  have hQ : ∀ x ∈ (top plan input).executions, Q x.place.text = x.isOf S := by
    intro x hx
    rw [Bool.eq_iff_iff, List.any_eq_true]
    constructor
    · rintro ⟨y, hy, hof⟩
      rw [Bool.and_eq_true, beq_iff_eq] at hof
      rw [← eq_of_text_eq hy hx hof.2]
      exact hof.1
    · intro hof
      exact ⟨x, hx, by rw [hof, beq_self_eq_true, Bool.and_true]⟩
  have hplain : ∀ x ∈ (top plan input).executions, ∀ f, x.node = .field f →
      .wildcard ∉ f.target.segments := by
    intro x hx f hf
    have hsub := targets_subset_of_mem_executions hx
    rw [hf] at hsub
    exact htargets _ (hsub (List.mem_singleton_self _))
  have hunmoved : (top plan input).Unmoved S Q (.object []) := unmoved hQ hplain hfails
  exact ⟨hunmoved.output, hunmoved.log⟩

/-- A document that copies the id and the name of each row. -/
def rowNames : Rule.Document :=
  ⟨"1.2", .json, .json, [], [],
    .split "rows" (.sequence
      [.field ⟨.path "id", [], "id", false⟩, .field ⟨.path "name", [], "name", false⟩]) "rows"⟩

/-- The plan of the document that copies the id and the name of each row. -/
def rowNamesPlan : Plan :=
  ⟨"1.2", .json, .json, .split ⟨false, [.key "rows"]⟩ (.sequence
    [.field ⟨.path ⟨false, [.key "id"]⟩, [], ⟨[.key "id"]⟩, false⟩,
      .field ⟨.path ⟨false, [.key "name"]⟩, [], ⟨[.key "name"]⟩, false⟩]) ⟨[.key "rows"]⟩⟩

/-- Two rows without a name, and one of them without an id. -/
def namelessRows : Value :=
  .object [("rows", .array [.object [("id", .string "a")], .object []])]

/-- The place of the field for the name of a row. -/
def isNamePlace (place : Rule.Place) : Bool := place == ⟨"root", [.item, .step 1]⟩

/-- Names that are missing in each row may as well not be asked for. The id that is missing in one
row is reported all the same. -/
theorem failures_are_local_rowNames :
    (start rowNamesPlan namelessRows).log.diagnostics.map (·.path) =
        ["root.item[0].steps[1]", "root.item[1].steps[0]", "root.item[1].steps[1]"] ∧
      (start (rowNamesPlan.mute isNamePlace) namelessRows).output =
        (start rowNamesPlan namelessRows).output ∧
      (start (rowNamesPlan.mute isNamePlace) namelessRows).log.diagnostics.map (·.path) =
        ["root.item[1].steps[0]"] := by
  have hplan : Plan.ofDocument rowNames = .ok rowNamesPlan := by cbv
  have hdiagnostics : (start rowNamesPlan namelessRows).log.diagnostics =
      [⟨.requiredSourceMissing, "root.item[0].steps[1]",
          "required source 'name' is absent; 'name' not written"⟩,
        ⟨.requiredSourceMissing, "root.item[1].steps[0]",
          "required source 'id' is absent; 'id' not written"⟩,
        ⟨.requiredSourceMissing, "root.item[1].steps[1]",
          "required source 'name' is absent; 'name' not written"⟩] := by rfl
  have hnames : ((top rowNamesPlan namelessRows).executions.filter (isOf isNamePlace)).map
      (·.place.text) = ["root.item[0].steps[1]", "root.item[1].steps[1]"] := by cbv
  have hfails : ∀ e ∈ (top rowNamesPlan namelessRows).executions, e.isOf isNamePlace = true →
      ∃ d ∈ (start rowNamesPlan namelessRows).log.diagnostics,
        d.code.isFieldError = true ∧ d.path = e.place.text := by
    intro e he hof
    have hname : e.place.text ∈ ["root.item[0].steps[1]", "root.item[1].steps[1]"] :=
      hnames ▸ List.mem_map_of_mem (List.mem_filter.mpr ⟨he, hof⟩)
    rw [hdiagnostics]
    simp only [List.mem_cons, List.not_mem_nil, or_false] at hname
    rcases hname with hname | hname <;> rw [hname] <;> simp [Code.isFieldError]
  obtain ⟨houtput, hlog⟩ := failures_are_local rowNamesPlan namelessRows isNamePlace
    (lowers_top hplan namelessRows).wildcard_notMem hfails
  refine ⟨by rw [hdiagnostics]; rfl, houtput, ?_⟩
  rw [hlog, hdiagnostics]
  cbv

end Run.Execution

end Remap
