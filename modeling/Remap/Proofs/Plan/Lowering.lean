import Remap.Plan.Lowering
import Remap.Proofs.Lists
import Remap.Proofs.Rule.Walk
import Remap.Proofs.Transform.Signature

/-!
# Lowering

`Lowers` tells which plan tree a rule tree comes down to, without the places at which faults would
be reported. Lowering finds just the plan tree that there is, without a fault. There is one as soon
as every node can be read by itself (`exists_lowers`).
-/

namespace Remap.Condition

/-- Induction over conditions. The parts of a condition satisfy the motive one by one. -/
theorem induct {motive : Condition → Prop} (equals : ∀ source value, motive (.equals source value))
    («exists» : ∀ source, motive (.exists source))
    («matches» : ∀ source pattern, motive (.matches source pattern))
    (and : ∀ cs, (∀ c ∈ cs, motive c) → motive (.and cs))
    (or : ∀ cs, (∀ c ∈ cs, motive c) → motive (.or cs))
    (not : ∀ c, motive c → motive (.not c)) (literal : ∀ value, motive (.literal value))
    (greaterThan : ∀ source value, motive (.greaterThan source value))
    (lessThan : ∀ source value, motive (.lessThan source value)) (c : Condition) : motive c := by
  refine Condition.rec (motive_1 := motive) (motive_2 := fun cs => ∀ c ∈ cs, motive c) equals
    «exists» «matches» and or not literal greaterThan lessThan (fun _ h => nomatch h) ?_ c
  intro head tail hhead htail c hc
  rcases List.mem_cons.mp hc with rfl | hc
  · exact hhead
  · exact htail c hc

theorem mem_listSources {cs : List Condition} {source : String} :
    source ∈ listSources cs ↔ ∃ c ∈ cs, source ∈ c.sources := by
  induction cs with
  | nil => simp [listSources]
  | cons c cs ih => simp [listSources, ih]

end Remap.Condition

namespace Remap.Reading

variable {α β : Type} {f : Nat → α → Reading β}

/-- Reads the things of a list, of which the first has number `i`. -/
def each (f : Nat → α → Reading β) (i : Nat) (xs : List α) : Reading (List β) :=
  all ((xs.zipIdx i).map fun e => f e.2 e.1)

theorem each_cons (i : Nat) (x : α) (xs : List α) :
    each f i (x :: xs) = List.cons <$> f i x <*> each f (i + 1) xs := rfl

/-- The things of a list are read as a whole if each of them is. -/
theorem each_eq_pure {xs : List α} {ys : List β}
    (h : List.Forall₂ (fun x y => ∀ i, f i x = pure y) xs ys) (i : Nat) :
    each f i xs = pure ys := by
  induction h generalizing i with
  | nil => rfl
  | cons hx _ ih => rw [each_cons, hx, ih]; rfl

theorem forall₂_of_each {R : α → β → Prop} {xs : List α} {ys : List β} {i : Nat}
    (hf : ∀ x ∈ xs, ∀ i y, (f i x).value = some y → R x y)
    (h : (each f i xs).value = some ys) : List.Forall₂ R xs ys := by
  induction xs generalizing i ys with
  | nil => cases h; exact .nil
  | cons x xs ih =>
    simp only [each_cons, value_seq, value_map, Option.bind_eq_some_iff,
      Option.map_eq_some_iff] at h
    obtain ⟨_, ⟨y, hy, rfl⟩, ys, hys, rfl⟩ := h
    exact .cons (hf x List.mem_cons_self i y hy)
      (ih (fun z hz => hf z (List.mem_cons_of_mem _ hz)) hys)

end Remap.Reading

namespace Remap.Plan

/-! ## What comes down to what -/

/-- What the origin of a field's value comes down to. -/
inductive OriginLowers : Rule.Source → Source → Prop where
  | path {text : String} {p : SourcePath} : SourcePath.parse text = .ok p →
      OriginLowers (.path text) (.path p)
  | constant {value : Value} : OriginLowers (.constant value) (.constant value)

/-- What a call comes down to. -/
def CallLowers (call : Rule.Call) (op : Operation) : Prop :=
  ∃ t, Transform.ofName? call.name = some t ∧ Operation.build t call.args = .ok op

theorem CallLowers.unique {call : Rule.Call} {a b : Operation} (ha : CallLowers call a)
    (hb : CallLowers call b) : a = b := by
  obtain ⟨t, hname, hbuild⟩ := ha
  obtain ⟨t', hname', hbuild'⟩ := hb
  rw [hname] at hname'
  cases hname'
  rw [hbuild] at hbuild'
  cases hbuild'
  rfl

/-- A call names the transform of what it comes down to. -/
theorem CallLowers.ofName?_name {call : Rule.Call} {op : Operation} (h : CallLowers call op) :
    Transform.ofName? call.name = some op.transform := by
  obtain ⟨t, hname, hbuild⟩ := h
  rw [hname, Operation.transform_of_build hbuild]

/-- What a field comes down to. -/
structure FieldLowers (f : Rule.Field) (g : Field) : Prop where
  source : OriginLowers f.source g.source
  operations : List.Forall₂ CallLowers f.transforms g.operations
  target : TargetPath.parse f.target = .ok g.target
  optional : g.optional = f.optional

theorem OriginLowers.unique {origin : Rule.Source} {a b : Source} (ha : OriginLowers origin a)
    (hb : OriginLowers origin b) : a = b := by
  cases ha with
  | constant => cases hb; rfl
  | path hp =>
    cases hb with
    | path hq =>
      rw [hp] at hq
      cases hq
      rfl

/-- Fields that read the same and begin with the same calls come down to ones that do. -/
theorem FieldLowers.take {f f' : Rule.Field} {g g' : Field} (hg : FieldLowers f g)
    (hg' : FieldLowers f' g') (hsource : f'.source = f.source) {k : Nat}
    (htake : f'.transforms.take k = f.transforms.take k) :
    g'.source = g.source ∧ g'.operations.take k = g.operations.take k := by
  have horigin := hg'.source
  rw [hsource] at horigin
  have hoperations := List.forall₂_take k hg'.operations
  rw [htake] at hoperations
  have hunique : Relator.RightUnique CallLowers := fun _ _ _ => CallLowers.unique
  exact ⟨horigin.unique hg.source,
    List.right_unique_forall₂' hunique hoperations (List.forall₂_take k hg.operations)⟩

/-- What a condition comes down to. -/
inductive ConditionLowers : Condition → Predicate → Prop where
  | equals {source : String} {value : Value} {p : SourcePath} :
      SourcePath.parse source = .ok p → ConditionLowers (.equals source value) (.equals p value)
  | exists {source : String} {p : SourcePath} :
      SourcePath.parse source = .ok p → ConditionLowers (.exists source) (.exists p)
  | matches {source text : String} {p : SourcePath} {pattern : Pattern} :
      SourcePath.parse source = .ok p → Pattern.parse text = .ok pattern →
      ConditionLowers (.matches source text) (.matches p text (.ofPattern pattern))
  | and {cs : List Condition} {ps : List Predicate} :
      List.Forall₂ ConditionLowers cs ps → ConditionLowers (.and cs) (.and ps)
  | or {cs : List Condition} {ps : List Predicate} :
      List.Forall₂ ConditionLowers cs ps → ConditionLowers (.or cs) (.or ps)
  | not {c : Condition} {p : Predicate} : ConditionLowers c p → ConditionLowers (.not c) (.not p)
  | literal {value : Bool} : ConditionLowers (.literal value) (.literal value)
  | greaterThan {source : String} {value : Value} {p : SourcePath} :
      SourcePath.parse source = .ok p →
      ConditionLowers (.greaterThan source value) (.greaterThan p value)
  | lessThan {source : String} {value : Value} {p : SourcePath} :
      SourcePath.parse source = .ok p →
      ConditionLowers (.lessThan source value) (.lessThan p value)

/-! ## Lowering finds it -/

theorem lowerSource_value_iff {path text : String} {p : SourcePath} :
    (lowerSource path text).value = some p ↔ SourcePath.parse text = .ok p := by
  unfold lowerSource
  split <;> simp [*, refuse, Reading.rejected]

theorem exists_source_of_map {α : Type} {path text : String} {f : SourcePath → α} {y : α}
    (h : (f <$> lowerSource path text).value = some y) :
    ∃ p, SourcePath.parse text = .ok p ∧ f p = y := by
  rw [Reading.value_map, Option.map_eq_some_iff] at h
  obtain ⟨p, hp, hy⟩ := h
  exact ⟨p, lowerSource_value_iff.mp hp, hy⟩

theorem lowerSource_eq_pure {text : String} {p : SourcePath} (h : SourcePath.parse text = .ok p)
    (path : String) : lowerSource path text = pure p := by
  rw [lowerSource, h]

theorem lowerTarget_value_iff {path text : String} {p : TargetPath} :
    (lowerTarget path text).value = some p ↔ TargetPath.parse text = .ok p := by
  unfold lowerTarget
  split <;> simp [*, refuse, Reading.rejected]

theorem lowerTarget_eq_pure {text : String} {p : TargetPath} (h : TargetPath.parse text = .ok p)
    (path : String) : lowerTarget path text = pure p := by
  rw [lowerTarget, h]

theorem CallLowers.of_value {path : String} {call : Rule.Call} {op : Operation}
    (h : (lowerCall path call).value = some op) : CallLowers call op := by
  unfold lowerCall at h
  split at h
  · nomatch h
  · next t hname =>
    split at h
    · next hbuild =>
      cases h
      exact ⟨t, hname, hbuild⟩
    · nomatch h

theorem CallLowers.eq_pure {call : Rule.Call} {op : Operation} (h : CallLowers call op)
    (path : String) : lowerCall path call = pure op := by
  obtain ⟨t, hname, hbuild⟩ := h
  simp only [lowerCall, hname, hbuild]

theorem OriginLowers.of_value {path : String} {origin : Rule.Source} {source : Source}
    (h : (lowerOrigin path origin).value = some source) : OriginLowers origin source := by
  cases origin with
  | constant value => cases h; exact .constant
  | path text =>
    obtain ⟨p, hp, rfl⟩ := exists_source_of_map h
    exact .path hp

theorem OriginLowers.eq_pure {origin : Rule.Source} {source : Source}
    (h : OriginLowers origin source) (path : String) : lowerOrigin path origin = pure source := by
  cases h with
  | constant => rfl
  | path hp => rw [lowerOrigin, lowerSource_eq_pure hp]; rfl

theorem FieldLowers.of_value {place : Rule.Place} {f : Rule.Field} {g : Field}
    (h : (lowerField place f).value = some g) : FieldLowers f g := by
  simp only [lowerField, Reading.value_seq, Reading.value_map, Option.bind_eq_some_iff,
    Option.map_eq_some_iff, lowerTarget_value_iff] at h
  obtain ⟨_, ⟨_, ⟨source, hsource, rfl⟩, operations, hoperations, rfl⟩, target, htarget, rfl⟩ := h
  exact ⟨.of_value hsource, Reading.forall₂_of_each
    (f := fun i call => lowerCall (Check.callPath place i) call) (fun _ _ _ _ h => .of_value h)
    hoperations, htarget, rfl⟩

theorem FieldLowers.eq_pure {f : Rule.Field} {g : Field} (h : FieldLowers f g)
    (place : Rule.Place) : lowerField place f = pure g := by
  have hoperations : Reading.all (f.transforms.zipIdx.map fun call =>
      lowerCall (Check.callPath place call.2) call.1) = pure g.operations :=
    Reading.each_eq_pure (f := fun i call => lowerCall (Check.callPath place i) call)
      (h.operations.imp fun _ _ hcall _ => hcall.eq_pure _) 0
  rw [lowerField, h.source.eq_pure, hoperations, lowerTarget_eq_pure h.target, ← h.optional]
  rfl

theorem lowerConditions_eq (path : String) (i : Nat) (cs : List Condition) :
    lowerConditions path i cs =
      Reading.each (fun i => lowerCondition (path ++ ".conditions" ++ Rule.Step.indexText i)) i cs := by
  induction cs generalizing i with
  | nil => rfl
  | cons c cs ih => rw [lowerConditions, ih, Reading.each_cons]

theorem ConditionLowers.of_value {path : String} {c : Condition} {p : Predicate}
    (h : (lowerCondition path c).value = some p) : ConditionLowers c p := by
  induction c using Condition.induct generalizing path p with
  | literal value => cases h; exact .literal
  | equals source value =>
    obtain ⟨_, hp, rfl⟩ := exists_source_of_map h
    exact .equals hp
  | «exists» source =>
    obtain ⟨_, hp, rfl⟩ := exists_source_of_map h
    exact .exists hp
  | greaterThan source value =>
    obtain ⟨_, hp, rfl⟩ := exists_source_of_map h
    exact .greaterThan hp
  | lessThan source value =>
    obtain ⟨_, hp, rfl⟩ := exists_source_of_map h
    exact .lessThan hp
  | «matches» source text =>
    simp only [lowerCondition, Reading.value_seq, Reading.value_map, Option.bind_eq_some_iff,
      Option.map_eq_some_iff, lowerSource_value_iff, lowerPattern] at h
    obtain ⟨_, ⟨_, hp, rfl⟩, _, hpattern, rfl⟩ := h
    split at hpattern
    · next hparse =>
      cases hpattern
      exact .matches hp hparse
    · nomatch hpattern
  | not c ih =>
    simp only [lowerCondition, Reading.value_map, Option.map_eq_some_iff] at h
    obtain ⟨_, hp, rfl⟩ := h
    exact .not (ih hp)
  | and cs ih =>
    simp only [lowerCondition, Reading.value_map, Option.map_eq_some_iff, lowerConditions_eq] at h
    obtain ⟨_, hps, rfl⟩ := h
    exact .and (Reading.forall₂_of_each (fun c hc _ _ h => ih c hc h) hps)
  | or cs ih =>
    simp only [lowerCondition, Reading.value_map, Option.map_eq_some_iff, lowerConditions_eq] at h
    obtain ⟨_, hps, rfl⟩ := h
    exact .or (Reading.forall₂_of_each (fun c hc _ _ h => ih c hc h) hps)

theorem ConditionLowers.eq_pure {c : Condition} {p : Predicate} (h : ConditionLowers c p)
    (path : String) : lowerCondition path c = pure p := by
  induction c using Condition.induct generalizing path p with
  | literal value => cases h; rfl
  | equals source value =>
    cases h with | equals hp => rw [lowerCondition, lowerSource_eq_pure hp]; rfl
  | «exists» source =>
    cases h with | «exists» hp => rw [lowerCondition, lowerSource_eq_pure hp]; rfl
  | greaterThan source value =>
    cases h with | greaterThan hp => rw [lowerCondition, lowerSource_eq_pure hp]; rfl
  | lessThan source value =>
    cases h with | lessThan hp => rw [lowerCondition, lowerSource_eq_pure hp]; rfl
  | «matches» source text =>
    cases h with
    | «matches» hp hpattern =>
      rw [lowerCondition, lowerSource_eq_pure hp]
      simp only [lowerPattern, hpattern]
      rfl
  | not c ih => cases h with | not hp => rw [lowerCondition, ih hp]; rfl
  | and cs ih =>
    cases h with
    | and hps =>
      rw [lowerCondition, lowerConditions_eq, Reading.each_eq_pure]
      · rfl
      · exact forall₂_imp_of_mem hps fun c hc _ hp _ => ih c hc hp _
  | or cs ih =>
    cases h with
    | or hps =>
      rw [lowerCondition, lowerConditions_eq, Reading.each_eq_pure]
      · rfl
      · exact forall₂_imp_of_mem hps fun c hc _ hp _ => ih c hc hp _

/-- What a rule tree comes down to. -/
inductive Lowers : Rule.Node → Node → Prop where
  | field {f : Rule.Field} {g : Field} : FieldLowers f g → Lowers (.field f) (.field g)
  | ifThen {test : Condition} {p : Predicate} {yes : Rule.Node} {yes' : Node} :
      ConditionLowers test p → Lowers yes yes' →
      Lowers (.condition test yes none) (.condition p yes' none)
  | ifElse {test : Condition} {p : Predicate} {yes no : Rule.Node} {yes' no' : Node} :
      ConditionLowers test p → Lowers yes yes' → Lowers no no' →
      Lowers (.condition test yes (some no)) (.condition p yes' (some no'))
  | merge {inputs : List Rule.Node} {inputs' : List Node} {policy : MergePolicy} {target : String}
      {t : TargetPath} : TargetPath.parse target = .ok t → List.Forall₂ Lowers inputs inputs' →
      Lowers (.merge inputs policy target) (.merge inputs' policy t)
  | split {source target : String} {s : SourcePath} {t : TargetPath} {item : Rule.Node}
      {item' : Node} : SourcePath.parse source = .ok s → TargetPath.parse target = .ok t →
      Lowers item item' → Lowers (.split source item target) (.split s item' t)
  | sequence {steps : List Rule.Node} {steps' : List Node} : List.Forall₂ Lowers steps steps' →
      Lowers (.sequence steps) (.sequence steps')

theorem lowerNodes_eq (place : Nat → Rule.Place) (i : Nat) (ns : List Rule.Node) :
    lowerNodes place i ns = Reading.each (fun i => lowerNode (place i)) i ns := by
  induction ns generalizing i with
  | nil => rfl
  | cons n ns ih => rw [lowerNodes, ih, Reading.each_cons]

theorem Lowers.of_value {place : Rule.Place} {n : Rule.Node} {p : Node}
    (h : (lowerNode place n).value = some p) : Lowers n p := by
  induction n using Rule.Node.induct generalizing place p with
  | field f =>
    simp only [lowerNode, Reading.value_map, Option.map_eq_some_iff] at h
    obtain ⟨_, hf, rfl⟩ := h
    exact .field (.of_value hf)
  | ifThen test yes ih =>
    simp only [lowerNode, Reading.value_seq, Reading.value_map, Option.bind_eq_some_iff,
      Option.map_eq_some_iff] at h
    obtain ⟨_, ⟨_, htest, rfl⟩, _, hyes, rfl⟩ := h
    exact .ifThen (.of_value htest) (ih hyes)
  | ifElse test yes no ihyes ihno =>
    simp only [lowerNode, Reading.value_seq, Reading.value_map, Option.bind_eq_some_iff,
      Option.map_eq_some_iff] at h
    obtain ⟨_, ⟨_, ⟨_, htest, rfl⟩, _, hyes, rfl⟩, _, hno, rfl⟩ := h
    exact .ifElse (.of_value htest) (ihyes hyes) (ihno hno)
  | merge inputs policy target ih =>
    simp only [lowerNode, Reading.value_seq, Reading.value_map, Option.bind_eq_some_iff,
      Option.map_eq_some_iff, lowerTarget_value_iff, lowerNodes_eq] at h
    obtain ⟨_, ⟨_, htarget, rfl⟩, _, hinputs, rfl⟩ := h
    exact .merge htarget (Reading.forall₂_of_each (fun n hn _ _ h => ih n hn h) hinputs)
  | split source item target ih =>
    simp only [lowerNode, Reading.value_seq, Reading.value_map, Option.bind_eq_some_iff,
      Option.map_eq_some_iff, lowerSource_value_iff, lowerTarget_value_iff] at h
    obtain ⟨_, ⟨_, ⟨_, hsource, rfl⟩, _, htarget, rfl⟩, _, hitem, rfl⟩ := h
    exact .split hsource htarget (ih hitem)
  | fragment name => nomatch h
  | sequence steps ih =>
    simp only [lowerNode, Reading.value_map, Option.map_eq_some_iff, lowerNodes_eq] at h
    obtain ⟨_, hsteps, rfl⟩ := h
    exact .sequence (Reading.forall₂_of_each (fun n hn _ _ h => ih n hn h) hsteps)

/-- A rule tree that comes down to a plan tree is lowered to it without a fault. -/
theorem Lowers.eq_pure {n : Rule.Node} {p : Node} (h : Lowers n p) (place : Rule.Place) :
    lowerNode place n = pure p := by
  induction n using Rule.Node.induct generalizing place p with
  | field f => cases h with | field hf => rw [lowerNode, hf.eq_pure]; rfl
  | ifThen test yes ih =>
    cases h with
    | ifThen htest hyes => rw [lowerNode, htest.eq_pure, ih hyes]; rfl
  | ifElse test yes no ihyes ihno =>
    cases h with
    | ifElse htest hyes hno => rw [lowerNode, htest.eq_pure, ihyes hyes, ihno hno]; rfl
  | merge inputs policy target ih =>
    cases h with
    | merge htarget hinputs =>
      rw [lowerNode, lowerTarget_eq_pure htarget, lowerNodes_eq, Reading.each_eq_pure]
      · rfl
      · exact forall₂_imp_of_mem hinputs fun n hn _ hp _ => ih n hn hp _
  | split source item target ih =>
    cases h with
    | split hsource htarget hitem =>
      rw [lowerNode, lowerSource_eq_pure hsource, lowerTarget_eq_pure htarget, ih hitem]
      rfl
  | fragment name => nomatch h
  | sequence steps ih =>
    cases h with
    | sequence hsteps =>
      rw [lowerNode, lowerNodes_eq, Reading.each_eq_pure]
      · rfl
      · exact forall₂_imp_of_mem hsteps fun n hn _ hp _ => ih n hn hp _

/-- A document has just the plan whose tree its own comes down to. -/
theorem ofDocument_eq_ok_iff {document : Rule.Document} {plan : Plan} :
    ofDocument document = .ok plan ↔
      ∃ p, Lowers document.root p ∧
        plan = ⟨document.schemaVersion, document.inputFormat, document.outputFormat, p⟩ := by
  constructor
  · intro h
    have hvalue := Reading.value_of_result h
    rw [Reading.value_map, Option.map_eq_some_iff] at hvalue
    obtain ⟨p, hp, rfl⟩ := hvalue
    exact ⟨p, .of_value hp, rfl⟩
  · rintro ⟨p, hp, rfl⟩
    rw [ofDocument, hp.eq_pure]
    rfl

theorem Lowers.size_eq {n : Rule.Node} {p : Node} (h : Lowers n p) : p.size = n.size := by
  have all {ns : List Rule.Node} {ps : List Node}
      (h : List.Forall₂ (fun n p => p.size = n.size) ns ps) :
      Node.sizes ps = Rule.Node.sizes ns := by
    induction h with
    | nil => rfl
    | cons h _ ih => rw [Node.sizes, Rule.Node.sizes, h, ih]
  induction n using Rule.Node.induct generalizing p with
  | field f => cases h; rfl
  | ifThen test yes ih =>
    cases h with | ifThen _ hyes => rw [Node.size, Rule.Node.size, ih hyes]
  | ifElse test yes no ihyes ihno =>
    cases h with | ifElse _ hyes hno => rw [Node.size, Rule.Node.size, ihyes hyes, ihno hno]
  | merge inputs policy target ih =>
    cases h with
    | merge _ hinputs =>
      rw [Node.size, Rule.Node.size,
        all (forall₂_imp_of_mem hinputs fun n hn _ hp => ih n hn hp)]
  | split source item target ih =>
    cases h with | split _ _ hitem => rw [Node.size, Rule.Node.size, ih hitem]
  | fragment name => cases h
  | sequence steps ih =>
    cases h with
    | sequence hsteps =>
      rw [Node.size, Rule.Node.size,
        all (forall₂_imp_of_mem hsteps fun n hn _ hp => ih n hn hp)]

/-! ## What can be lowered -/

/-- The text that a node holds itself can be read, and it is no reference. -/
def Readable : Rule.Node → Prop
  | .field f => ∃ g, FieldLowers f g
  | .condition test _ _ => ∃ p, ConditionLowers test p
  | .merge _ _ target => ∃ t, TargetPath.parse target = .ok t
  | .split source _ target =>
    (∃ s, SourcePath.parse source = .ok s) ∧ ∃ t, TargetPath.parse target = .ok t
  | .fragment _ => False
  | .sequence _ => True

/-- A rule tree comes down to a plan tree if each of its nodes is readable. -/
theorem exists_lowers {n : Rule.Node} (h : ∀ m ∈ n.nodes, Readable m) : ∃ p, Lowers n p := by
  have all {ns : List Rule.Node} (ih : ∀ n ∈ ns, (∀ m ∈ n.nodes, Readable m) → ∃ p, Lowers n p)
      (h : ∀ m ∈ Rule.Node.allNodes ns, Readable m) : ∃ ps, List.Forall₂ Lowers ns ps :=
    forall₂_of_forall_exists fun n hn =>
      ih n hn fun m hm => h m (Rule.Node.mem_allNodes.mpr ⟨n, hn, hm⟩)
  induction n using Rule.Node.induct with
  | field f =>
    obtain ⟨g, hg⟩ := h _ (List.mem_singleton_self _)
    exact ⟨_, .field hg⟩
  | ifThen test yes ih =>
    obtain ⟨p, hp⟩ := h _ List.mem_cons_self
    obtain ⟨yes', hyes⟩ := ih fun m hm => h m (List.mem_cons_of_mem _ hm)
    exact ⟨_, .ifThen hp hyes⟩
  | ifElse test yes no ihyes ihno =>
    obtain ⟨p, hp⟩ := h _ List.mem_cons_self
    obtain ⟨yes', hyes⟩ := ihyes fun m hm =>
      h m (List.mem_cons_of_mem _ (List.mem_append_left _ hm))
    obtain ⟨no', hno⟩ := ihno fun m hm =>
      h m (List.mem_cons_of_mem _ (List.mem_append_right _ hm))
    exact ⟨_, .ifElse hp hyes hno⟩
  | merge inputs policy target ih =>
    obtain ⟨t, ht⟩ := h _ List.mem_cons_self
    obtain ⟨inputs', hinputs⟩ := all ih fun m hm => h m (List.mem_cons_of_mem _ hm)
    exact ⟨_, .merge ht hinputs⟩
  | split source item target ih =>
    obtain ⟨⟨s, hs⟩, t, ht⟩ := h _ List.mem_cons_self
    obtain ⟨item', hitem⟩ := ih fun m hm => h m (List.mem_cons_of_mem _ hm)
    exact ⟨_, .split hs ht hitem⟩
  | fragment name => exact absurd (h _ (List.mem_singleton_self _)) id
  | sequence steps ih =>
    obtain ⟨steps', hsteps⟩ := all ih fun m hm => h m (List.mem_cons_of_mem _ hm)
    exact ⟨_, .sequence hsteps⟩

end Remap.Plan
