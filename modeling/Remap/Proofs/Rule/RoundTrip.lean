import Remap.Proofs.Entries
import Remap.Proofs.Plan.Lowering
import Remap.Rule.Reader
import Remap.Rule.Writer

/-!
# Rules are read back

What is written for rules is read as these rules: the reader puts in the defaults that the writer
leaves out, and it knows every field that the writer writes.
-/

namespace Remap.Reading

variable {α β : Type}

@[simp] theorem map_pure (f : α → β) (x : α) : f <$> (pure x : Reading α) = pure (f x) := rfl

@[simp] theorem pure_seq_pure (f : α → β) (x : α) :
    (pure f : Reading (α → β)) <*> pure x = pure (f x) := rfl

@[simp] theorem after_nil (r : Reading α) : after [] r = r := rfl

@[simp] theorem result_pure (x : α) : (pure x : Reading α).result = .ok x := rfl

/-- Things that are read back one by one are read back as a list. -/
theorem list_map_eq_pure {f : Nat → Value → Reading α} {g : α → Value} {xs : List α}
    (h : ∀ x ∈ xs, ∀ i, f i (g x) = pure x) : list f (xs.map g) = pure xs :=
  each_eq_pure (f := f) (List.forall₂_map_left_iff.mpr (List.forall₂_same.mpr h)) 0

end Remap.Reading

namespace Remap

theorem MergePolicy.ofName?_name (policy : MergePolicy) : ofName? policy.name = some policy := by
  cases policy <;> decide

theorem Format.ofName?_name (format : Format) : ofName? format.name = some format := by
  cases format <;> rfl

namespace Rule

/-! ## Conditions -/

theorem readCondition_tree (c : Condition) (path : String) :
    readCondition path c.tree = pure c := by
  have all {cs : List Condition} (h : ∀ c ∈ cs, ∀ path, readCondition path c.tree = pure c)
      (path : String) (i : Nat) : readConditions path i (Condition.trees cs) = pure cs := by
    induction cs generalizing i with
    | nil => rw [Condition.trees, readConditions]
    | cons c cs ih =>
      rw [Condition.trees, readConditions, h c List.mem_cons_self,
        ih fun d hd => h d (List.mem_cons_of_mem _ hd)]
      rfl
  induction c using Condition.induct generalizing path with
  | equals | greaterThan | lessThan | «exists» | «matches» | literal =>
    rw [Condition.tree, readCondition]
    simp [Entries.get?, Entries.keys, Value.text?, Value.bool?, conditionFields?, readLeaf,
      readConditionSource, readConditionValue, readConditionPattern, readLiteral]
  | and cs ih | or cs ih =>
    rw [Condition.tree, readCondition]
    simp [Entries.get?, Entries.keys, Value.text?, conditionFields?, all ih]
  | not c ih =>
    rw [Condition.tree, readCondition]
    simp [Entries.get?, Entries.keys, Value.text?, conditionFields?, ih]

/-! ## Fields -/

theorem readCall_tree (path : String) (position : Nat) (c : Call) :
    readCall path position c.tree = pure c := by
  obtain ⟨name, args⟩ := c
  cases args with
  | nil => rfl
  | cons arg args =>
    simp [Call.tree, readCall, Entries.get?, Entries.keys, Value.text?, Value.items?]

theorem readField_entries (path : String) (f : Field) :
    readField path (("kind", .string "field") :: f.entries) = pure f := by
  have hcalls (calls : List Call) :
      Reading.list (fun i item => readCall path (i + 1) item) (calls.map Call.tree) = pure calls :=
    Reading.list_map_eq_pure fun c _ i => readCall_tree path (i + 1) c
  obtain ⟨source, calls, target, optional⟩ := f
  cases source <;> cases calls <;> cases optional <;>
    simp [readField, Field.entries, Source.entry, entryIf, readSource, readCalls, readOptional,
      Reading.text, Entries.get?, hcalls, -List.map_cons]

/-! ## Nodes -/

theorem readNode_tree (n : Node) (place : Place) : readNode place n.tree = pure n := by
  have all {ns : List Node} (h : ∀ n ∈ ns, ∀ place, readNode place n.tree = pure n)
      (place : Nat → Place) (i : Nat) : readNodes place i (Node.trees ns) = pure ns := by
    induction ns generalizing i with
    | nil => rw [Node.trees, readNodes]
    | cons n ns ih =>
      rw [Node.trees, readNodes, h n List.mem_cons_self,
        ih fun m hm => h m (List.mem_cons_of_mem _ hm)]
      rfl
  induction n using Node.induct generalizing place with
  | field f =>
    have hknown : (Entries.keys (("kind", .string "field") :: f.entries)).filter
        (fun key => not
          (["kind", "source", "value", "transforms", "target", "optional"].contains key)) = [] := by
      obtain ⟨source, calls, target, optional⟩ := f
      cases source <;> cases calls <;> cases optional <;> rfl
    rw [Node.tree, readNode]
    simp only [Entries.get?, if_true, Option.bind_some, Value.text?, nodeFields?, hknown,
      List.map_nil, Reading.after_nil, readField_entries, Reading.map_pure]
  | ifThen test yes ih =>
    rw [Node.tree, readNode]
    simp [Entries.get?, Entries.keys, Value.text?, nodeFields?, readCondition_tree, ih]
  | ifElse test yes no ihyes ihno =>
    rw [Node.tree, readNode]
    simp [Entries.get?, Entries.keys, Value.text?, nodeFields?, readCondition_tree, ihyes, ihno]
  | merge inputs policy target ih =>
    -- The reader looks for the inputs behind entries that may have been left out.
    by_cases hpolicy : policy = .standard <;> by_cases htarget : target = "" <;>
      · simp only [Node.tree, entryIf, bne_iff_ne, ne_eq, hpolicy, htarget, not_true_eq_false,
          not_false_eq_true, if_true, if_false, List.append_nil, List.cons_append, List.nil_append]
        rw [readNode]
        simp [Entries.get?, Entries.keys, Value.text?, nodeFields?, readPolicy, readMergeTarget,
          Reading.text, MergePolicy.ofName?_name, all ih]
  | split source item target ih =>
    rw [Node.tree, readNode]
    simp [Entries.get?, Entries.keys, Value.text?, nodeFields?, Reading.text, ih]
  | fragment name =>
    rw [Node.tree, readNode]
    simp [Entries.get?, Entries.keys, Value.text?, nodeFields?, Reading.text]
  | sequence steps ih =>
    rw [Node.tree, readNode]
    simp [Entries.get?, Entries.keys, Value.text?, nodeFields?, all ih]

/-! ## Documents -/

/-- What a text must say of a document besides its rules: a version that is supported, and includes
with names. -/
structure Document.Declared (d : Document) : Prop where
  version : ∃ version, Version.parse d.schemaVersion = .ok version ∧ version.isSupported = true
  includes : ∀ name ∈ d.includes, name.isEmpty = false

/-- Reading a document asks for no fields but these. -/
theorem readDocument_congr {fields fields' : Entries Value}
    (h : ∀ key ∈ ["schemaVersion", "inputFormat", "outputFormat", "includes", "fragments", "root"],
      Entries.get? key fields' = Entries.get? key fields) :
    readDocument (.object fields') = readDocument (.object fields) := by
  simp only [List.forall_mem_cons] at h
  obtain ⟨hversion, hinput, houtput, hincludes, hfragments, hroot, -⟩ := h
  simp only [readDocument, readVersion, readFormat, readIncludes, readFragments, readRoot, hversion,
    hinput, houtput, hincludes, hfragments, hroot]

/-- What stands under the keys of a document that is written. -/
theorem exists_fields_tree (d : Document) : ∃ fields, d.tree = .object fields ∧
    Entries.get? "schemaVersion" fields = some (.string d.schemaVersion) ∧
    Entries.get? "inputFormat" fields = some (.string d.inputFormat.name) ∧
    Entries.get? "outputFormat" fields = some (.string d.outputFormat.name) ∧
    Entries.get? "includes" fields =
      (if d.includes = [] then none else some (.array (d.includes.map Value.string))) ∧
    Entries.get? "fragments" fields =
      (if d.fragments = [] then none
        else some (.object (d.fragments.map fun (name, node) => (name, node.tree)))) ∧
    Entries.get? "root" fields = some d.root.tree := by
  refine ⟨_, rfl, ?_⟩
  cases d.includes <;> cases d.fragments <;> simp [entryIf, Entries.get?]

theorem readNodes_trees (fragments : Entries Node) :
    Reading.all ((fragments.map fun (name, node) => (name, node.tree)).map fun (name, node) =>
      (fun node => (name, node)) <$> readNode (fragmentPlace "" name) node) = pure fragments := by
  induction fragments with
  | nil => rfl
  | cons e rest ih =>
    simp only [List.map_cons, Reading.all, readNode_tree, ih]
    rfl

theorem readDocument_tree {d : Document} (h : d.Declared) : readDocument d.tree = pure d := by
  obtain ⟨fields, htree, hversion, hinput, houtput, hincludes, hfragments, hroot⟩ :=
    exists_fields_tree d
  obtain ⟨version, hparse, hsupported⟩ := h.version
  have hversion : readVersion fields = pure d.schemaVersion := by
    simp only [readVersion, hversion, hparse, hsupported, if_true]
  have hformat {field : String} {format : Format}
      (hget : Entries.get? field fields = some (.string format.name)) :
      readFormat field fields = pure format := by
    simp only [readFormat, hget, Format.ofName?_name]
  have hincludes : readIncludes "" fields = pure d.includes := by
    rw [readIncludes, hincludes]
    by_cases hnone : d.includes = []
    · simp only [hnone, if_true]
    · simp only [hnone, if_false]
      refine Reading.list_map_eq_pure fun name hname i => ?_
      simp only [readInclude, h.includes name hname, Bool.false_eq_true, if_false]
  have hfragments : readFragments "" fields = pure d.fragments := by
    rw [readFragments, hfragments]
    by_cases hnone : d.fragments = []
    · simp only [hnone, if_true]
    · simp only [hnone, if_false]
      exact readNodes_trees d.fragments
  have hroot : readRoot fields = pure d.root := by
    simp only [readRoot, hroot, readNode_tree]
  rw [htree, readDocument, hversion, hformat hinput, hformat houtput, hincludes, hfragments, hroot]
  rfl

end Rule

end Remap
