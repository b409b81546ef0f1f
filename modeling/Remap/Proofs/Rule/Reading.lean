import Remap.Rule.Reader

/-!
# Readings explain themselves

What could not be read comes with a fault that says why, and all faults are errors
(`Reading.Explained`). Every way to put readings together keeps this, and so a text that is no
library or no document comes with at least one fault (`Library.faults_ne_nil`,
`Document.faults_ne_nil`) and with nothing but errors (`Library.isError_of_mem_faults`,
`Document.isError_of_mem_faults`). The main statement puts this together, for whole texts and for
each of their parts (`reading_explained`). What holds of the parts that are read holds of the whole
in the same way (`Reading.Yields`).
-/

namespace Remap

/-- What an object holds is smaller than the object. -/
theorem Value.sizeOf_lt_of_get? {fields : Entries Value} {key : String} {v : Value}
    (h : Entries.get? key fields = some v) : sizeOf v < sizeOf (Value.object fields) := by
  have := Entries.sizeOf_lt_of_get? h
  simp only [Value.object.sizeOf_spec]
  omega

/-- The items of an array that an object holds are smaller than the object. -/
theorem Value.sizeOf_items_lt_of_get? {fields : Entries Value} {key : String} {items : List Value}
    (h : Entries.get? key fields = some (.array items)) :
    sizeOf items < sizeOf (Value.object fields) := by
  have := sizeOf_lt_of_get? h
  simp only [Value.array.sizeOf_spec] at this
  omega

theorem Rule.Fault.isError_diagnostic (fault : Fault) (path : String) :
    (fault.diagnostic path).isError := by
  cases fault <;> rfl

end Remap

namespace Remap.Reading

variable {α β : Type}

/-- Where nothing could be read, there is a fault, and all faults are errors. -/
structure Explained (r : Reading α) : Prop where
  faults_ne_nil : r.value = none → r.faults ≠ []
  isError : ∀ d ∈ r.faults, d.isError

@[simp] theorem explained_pure (x : α) : (pure x : Reading α).Explained :=
  ⟨fun h => absurd h (by simp), fun _ hd => absurd hd List.not_mem_nil⟩

@[simp] theorem explained_fail (path : String) (fault : Rule.Fault) :
    (fail path fault : Reading α).Explained := by
  refine ⟨fun _ => List.cons_ne_nil _ _, fun d hd => ?_⟩
  rw [List.mem_singleton.mp hd]
  exact fault.isError_diagnostic path

@[simp] theorem explained_map {f : α → β} {r : Reading α} :
    (f <$> r).Explained ↔ r.Explained :=
  ⟨fun h => ⟨fun hv => h.1 (by simp [hv]), h.2⟩, fun h => ⟨fun hv => h.1 (by simpa using hv), h.2⟩⟩

theorem Explained.seq {f : Reading (α → β)} {r : Reading α} (hf : f.Explained)
    (hr : r.Explained) : (f <*> r).Explained := by
  constructor
  · intro h
    rw [value_seq, Option.bind_eq_none_iff] at h
    rw [faults_seq]
    cases hv : f.value with
    | none => exact List.append_ne_nil_of_left_ne_nil (hf.1 hv) _
    | some g =>
      exact List.append_ne_nil_of_right_ne_nil _ (hr.1 (Option.map_eq_none_iff.mp (h g hv)))
  · intro d hd
    rcases List.mem_append.mp hd with hd | hd
    · exact hf.2 d hd
    · exact hr.2 d hd

theorem Explained.after {faults : List Diagnostic} {r : Reading α} (h : r.Explained)
    (hfaults : ∀ d ∈ faults, d.isError) : (after faults r).Explained := by
  refine ⟨fun hv => List.append_ne_nil_of_right_ne_nil _ (h.1 hv), fun d hd => ?_⟩
  rcases List.mem_append.mp hd with hd | hd
  · exact hfaults d hd
  · exact h.2 d hd

theorem Explained.all {readings : List (Reading α)} (h : ∀ r ∈ readings, r.Explained) :
    (all readings).Explained := by
  induction readings with
  | nil => exact explained_pure _
  | cons r rest ih =>
    exact (explained_map.mpr (h r List.mem_cons_self)).seq
      (ih fun s hs => h s (List.mem_cons_of_mem _ hs))

theorem Explained.list {f : Nat → Value → Reading α} {items : List Value}
    (h : ∀ i v, (f i v).Explained) : (list f items).Explained := by
  refine Explained.all fun r hr => ?_
  obtain ⟨⟨item, i⟩, -, rfl⟩ := List.mem_map.mp hr
  exact h i item

theorem explained_text (path field : String) (fields : Entries Value) :
    (text path field fields).Explained := by
  unfold text
  split <;> simp

/-- A result that is an error has a fault, and all its faults are errors. -/
theorem Explained.of_result {r : Reading α} {faults : List Diagnostic} (h : r.Explained)
    (hr : r.result = .error faults) : faults ≠ [] ∧ ∀ d ∈ faults, d.isError := by
  unfold result at hr
  split at hr
  · cases hr
  case h_2 hne =>
    cases hr
    refine ⟨fun hnil => ?_, h.2⟩
    cases hv : r.value with
    | none => exact h.1 hv hnil
    | some x => exact hne x hv hnil

/-- There is a result just where there are no faults. -/
theorem Explained.exists_result_iff {r : Reading α} (h : r.Explained) :
    (∃ x, r.result = .ok x) ↔ r.faults = [] := by
  unfold result
  split
  case h_1 x hvalue hfaults => exact iff_of_true ⟨x, rfl⟩ hfaults
  case h_2 hne =>
    refine iff_of_false nofun fun hnil => ?_
    cases hv : r.value with
    | none => exact h.1 hv hnil
    | some x => exact hne x hv hnil

/-! ## What holds of what is read -/

section Yields

variable {P : α → Prop} {Q : β → Prop} {f : β → α} {r : Reading β}

/-- Whether something holds of what is read. -/
def Yields (P : α → Prop) (r : Reading α) : Prop := ∀ x, r.value = some x → P x

theorem yields_pure {x : α} : (pure x : Reading α).Yields P ↔ P x := by
  simp [Yields]

theorem yields_fail {path : String} {fault : Rule.Fault} :
    (fail path fault : Reading α).Yields P := nofun

theorem yields_after {faults : List Diagnostic} {r : Reading α} :
    (after faults r).Yields P ↔ r.Yields P := Iff.rfl

theorem yields_true (r : Reading α) : r.Yields fun _ => True := fun _ _ => trivial

theorem Yields.map (hr : r.Yields Q) (hf : ∀ x, Q x → P (f x)) : (f <$> r).Yields P := by
  intro y hy
  obtain ⟨x, hx, rfl⟩ := Option.map_eq_some_iff.mp hy
  exact hf x (hr x hx)

theorem Yields.seq {f : Reading (β → α)} (hf : f.Yields fun g => ∀ x, Q x → P (g x))
    (hr : r.Yields Q) : (f <*> r).Yields P := by
  intro y hy
  obtain ⟨g, hg, hy⟩ := Option.bind_eq_some_iff.mp hy
  obtain ⟨x, hx, rfl⟩ := Option.map_eq_some_iff.mp hy
  exact hf g hg x (hr x hx)

theorem Yields.all {readings : List (Reading α)} (h : ∀ r ∈ readings, r.Yields P) :
    (all readings).Yields fun xs => ∀ x ∈ xs, P x := by
  intro xs hxs x hx
  obtain ⟨r, hr, hvalue⟩ := exists_of_mem_all hxs hx
  exact h r hr x hvalue

theorem Yields.list {f : Nat → Value → Reading α} {items : List Value}
    (h : ∀ v ∈ items, ∀ i, (f i v).Yields P) : (list f items).Yields fun xs => ∀ x ∈ xs, P x := by
  refine Yields.all fun r hr => ?_
  obtain ⟨⟨item, i⟩, hitem, rfl⟩ := List.mem_map.mp hr
  exact h item (List.fst_mem_of_mem_zipIdx hitem) i

end Yields

end Remap.Reading

namespace Remap.Rule

open Reading

/-! ## Fields and conditions -/

theorem explained_readCall (path : String) (position : Nat) (v : Value) :
    (readCall path position v).Explained := by
  unfold readCall
  split
  · simp
  · dsimp only
    split <;> simp
  · simp

theorem explained_readCalls (path : String) (fields : Entries Value) :
    (readCalls path fields).Explained := by
  unfold readCalls
  split
  · simp
  · exact .list fun _ _ => explained_readCall ..
  · simp

theorem explained_readField (path : String) (fields : Entries Value) :
    (readField path fields).Explained := by
  have hsource : (readSource path fields).Explained := by
    unfold readSource; split <;> simp
  have hoptional : (readOptional path fields).Explained := by
    unfold readOptional; split <;> simp
  exact (((explained_map.mpr hsource).seq (explained_readCalls ..)).seq (explained_text ..)).seq
    hoptional

theorem explained_readPolicy (path : String) (fields : Entries Value) :
    (readPolicy path fields).Explained := by
  unfold readPolicy
  split
  · simp
  · split <;> simp
  · simp

theorem explained_readMergeTarget (path : String) (fields : Entries Value) :
    (readMergeTarget path fields).Explained := by
  unfold readMergeTarget
  split
  · simp
  · exact explained_text ..

theorem explained_readLeaf (path op : String) (fields : Entries Value) :
    (readLeaf path op fields).Explained := by
  have hsource : (readConditionSource path op fields).Explained := by
    unfold readConditionSource; split <;> simp
  have hvalue : (readConditionValue path op fields).Explained := by
    unfold readConditionValue; split <;> simp
  have hpattern : (readConditionPattern path fields).Explained := by
    unfold readConditionPattern; split <;> simp
  have hliteral : (readLiteral path fields).Explained := by
    unfold readLiteral; split <;> simp
  unfold readLeaf
  split
  · exact (explained_map.mpr hsource).seq hvalue
  · exact (explained_map.mpr hsource).seq hvalue
  · exact (explained_map.mpr hsource).seq hvalue
  · exact explained_map.mpr hsource
  · exact (explained_map.mpr hsource).seq hpattern
  · exact explained_map.mpr hliteral

mutual

theorem explained_readCondition (path : String) (v : Value) :
    (readCondition path v).Explained := by
  unfold readCondition
  split
  case h_2 => simp
  case h_1 fields =>
    split
    · simp
    split
    · simp
    split
    · simp
    split
    · split
      case h_1 items hitems =>
        have := Value.sizeOf_items_lt_of_get? hitems
        exact explained_map.mpr (explained_readConditions _ _ items)
      · simp
    split
    · split
      case h_1 inner hinner =>
        have := Value.sizeOf_lt_of_get? hinner
        exact explained_map.mpr (explained_readCondition _ inner)
      · simp
    · exact explained_readLeaf ..
termination_by sizeOf v
decreasing_by all_goals (subst_vars; assumption)

theorem explained_readConditions (path : String) (i : Nat) (items : List Value) :
    (readConditions path i items).Explained := by
  unfold readConditions
  split
  · simp
  · exact (explained_map.mpr (explained_readCondition ..)).seq (explained_readConditions ..)
termination_by sizeOf items

end

/-! ## Nodes -/

mutual

theorem explained_readNode (place : Place) (v : Value) : (readNode place v).Explained := by
  unfold readNode
  split
  case h_2 => simp
  case h_1 fields =>
    split
    · simp
    split
    · simp
    refine .after ?_ ?_
    case refine_2 =>
      intro d hd
      obtain ⟨key, -, rfl⟩ := List.mem_map.mp hd
      exact Fault.isError_diagnostic ..
    split
    · exact explained_map.mpr (explained_readField ..)
    split
    · refine ((explained_map.mpr ?_).seq ?_).seq ?_
      · split
        · exact explained_readCondition ..
        · simp
      · split
        case h_1 yes hyes =>
          have := Value.sizeOf_lt_of_get? hyes
          exact explained_readNode _ yes
        · simp
      · split
        case h_1 no hno =>
          have := Value.sizeOf_lt_of_get? hno
          exact explained_map.mpr (explained_readNode _ no)
        · simp
    split
    · refine ((explained_map.mpr ?_).seq (explained_readPolicy ..)).seq
        (explained_readMergeTarget ..)
      split
      case h_1 items hitems =>
        have := Value.sizeOf_items_lt_of_get? hitems
        exact explained_readNodes _ _ items
      · simp
      · simp
    split
    · refine ((explained_map.mpr (explained_text ..)).seq ?_).seq (explained_text ..)
      split
      case h_1 item hitem =>
        have := Value.sizeOf_lt_of_get? hitem
        exact explained_readNode _ item
      · simp
    split
    · exact explained_map.mpr (explained_text ..)
    · split
      case h_1 items hitems =>
        have := Value.sizeOf_items_lt_of_get? hitems
        exact explained_map.mpr (explained_readNodes _ _ items)
      · simp
      · simp
termination_by sizeOf v
decreasing_by all_goals (subst_vars; assumption)

theorem explained_readNodes (place : Nat → Place) (i : Nat) (items : List Value) :
    (readNodes place i items).Explained := by
  unfold readNodes
  split
  · simp
  · exact (explained_map.mpr (explained_readNode ..)).seq (explained_readNodes ..)
termination_by sizeOf items

end

/-! ## Libraries and documents -/

theorem explained_readIncludes (owner : String) (fields : Entries Value) :
    (readIncludes owner fields).Explained := by
  unfold readIncludes
  split
  · simp
  · refine .list fun i v => ?_
    unfold readInclude
    split
    · split <;> simp
    · simp
  · simp

theorem explained_readFragments (owner : String) (fields : Entries Value) :
    (readFragments owner fields).Explained := by
  unfold readFragments
  split
  · simp
  · refine .all fun r hr => ?_
    obtain ⟨⟨name, node⟩, -, rfl⟩ := List.mem_map.mp hr
    exact explained_map.mpr (explained_readNode ..)
  · simp

theorem explained_readLibrary (owner : String) (v : Value) :
    (readLibrary owner v).Explained := by
  unfold readLibrary
  split
  · exact (explained_map.mpr (explained_readIncludes ..)).seq (explained_readFragments ..)
  · simp

theorem explained_readVersion (fields : Entries Value) : (readVersion fields).Explained := by
  unfold readVersion
  split
  · simp
  · split
    · split <;> simp
    · simp
  · simp

theorem explained_readFormat (field : String) (fields : Entries Value) :
    (readFormat field fields).Explained := by
  unfold readFormat
  split
  · simp
  · split <;> simp
  · simp

theorem explained_readDocument (v : Value) : (readDocument v).Explained := by
  unfold readDocument
  split
  case h_2 => simp
  case h_1 fields =>
    have hroot : (readRoot fields).Explained := by
      unfold readRoot
      split
      · exact explained_readNode ..
      · simp
    exact (((((explained_map.mpr (explained_readVersion fields)).seq (explained_readFormat ..)).seq
      (explained_readFormat ..)).seq (explained_readIncludes ..)).seq
      (explained_readFragments ..)).seq hroot

/-- What is reported of a text that is no JSON is an error. -/
private theorem explained_json (fault : Json.Located) (path : String) :
    [(Fault.json fault).diagnostic path] ≠ [] ∧
      ∀ d ∈ [(Fault.json fault).diagnostic path], d.isError := by
  refine ⟨List.cons_ne_nil _ _, fun d hd => ?_⟩
  rw [List.mem_singleton.mp hd]
  exact Fault.isError_diagnostic ..

private theorem Library.explained_parse {name text : String} {faults : List Diagnostic}
    (h : Library.parse name text = .error faults) : faults ≠ [] ∧ ∀ d ∈ faults, d.isError := by
  unfold Library.parse at h
  split at h
  · exact (explained_readLibrary ..).of_result h
  · cases h
    exact explained_json ..

/-- A text that is no library comes with a fault. -/
theorem Library.faults_ne_nil {name text : String} {faults : List Diagnostic}
    (h : Library.parse name text = .error faults) : faults ≠ [] :=
  (Library.explained_parse h).1

theorem Library.isError_of_mem_faults {name text : String} {faults : List Diagnostic}
    (h : Library.parse name text = .error faults) : ∀ d ∈ faults, d.isError :=
  (Library.explained_parse h).2

private theorem Document.explained_parse {text : String} {faults : List Diagnostic}
    (h : Document.parse text = .error faults) : faults ≠ [] ∧ ∀ d ∈ faults, d.isError := by
  unfold Document.parse at h
  split at h
  · exact (explained_readDocument _).of_result h
  · cases h
    exact explained_json ..

/-- A text that denotes no document comes with a fault. -/
theorem Document.faults_ne_nil {text : String} {faults : List Diagnostic}
    (h : Document.parse text = .error faults) : faults ≠ [] :=
  (Document.explained_parse h).1

theorem Document.isError_of_mem_faults {text : String} {faults : List Diagnostic}
    (h : Document.parse text = .error faults) : ∀ d ∈ faults, d.isError :=
  (Document.explained_parse h).2

theorem Library.exists_parse_iff {name text : String} :
    (∃ library, Library.parse name text = .ok library) ↔
      ∃ v, Json.read text = .ok v ∧ (readLibrary (name ++ ":") v).faults = [] := by
  unfold Library.parse
  cases hread : Json.read text with
  | error fault => exact iff_of_false nofun nofun
  | ok v =>
    refine (explained_readLibrary ..).exists_result_iff.trans ?_
    exact ⟨fun hnil => ⟨v, rfl, hnil⟩, fun ⟨_, hv, hnil⟩ => by cases hv; exact hnil⟩

/-- **Rules are not refused in silence.** A tree that is no document and a text that is no library
come with at least one fault, and with nothing but errors. A document or a library is read just where
no fault is met. And each node, condition, list or other part that cannot be read comes with a fault
of its own. -/
theorem reading_explained :
    (∀ v : Value,
      (∀ faults, (readDocument v).result = .error faults →
        faults ≠ [] ∧ ∀ d ∈ faults, d.isError) ∧
      ((∃ document, (readDocument v).result = .ok document) ↔ (readDocument v).faults = [])) ∧
    (∀ name text : String,
      (∀ faults, Library.parse name text = .error faults →
        faults ≠ [] ∧ ∀ d ∈ faults, d.isError) ∧
      ((∃ library, Library.parse name text = .ok library) ↔
        ∃ v, Json.read text = .ok v ∧ (readLibrary (name ++ ":") v).faults = [])) ∧
    (∀ place v, (readNode place v).Explained) ∧
    (∀ place i items, (readNodes place i items).Explained) ∧
    (∀ path fields, (readField path fields).Explained) ∧
    (∀ path fields, (readCalls path fields).Explained) ∧
    (∀ path v, (readCondition path v).Explained) ∧
    (∀ path i items, (readConditions path i items).Explained) ∧
    (∀ owner fields, (readIncludes owner fields).Explained) ∧
    (∀ owner fields, (readFragments owner fields).Explained) ∧
    (∀ fields, (readVersion fields).Explained) ∧
    ∀ field fields, (readFormat field fields).Explained :=
  ⟨fun v => ⟨fun _ => (explained_readDocument v).of_result,
      (explained_readDocument v).exists_result_iff⟩,
    fun _ _ => ⟨fun _ => Library.explained_parse, Library.exists_parse_iff⟩,
    explained_readNode, explained_readNodes, explained_readField, explained_readCalls,
    explained_readCondition, explained_readConditions, explained_readIncludes,
    explained_readFragments, explained_readVersion, explained_readFormat⟩

/-- A document of a version to come, with a step that tells too little and one that is no node. -/
def messyTree : Value :=
  .object
    [("schemaVersion", .string "9.0"), ("inputFormat", .string "json"),
      ("outputFormat", .string "json"), ("root", .object
        [("kind", .string "sequence"), ("steps", .array
          [.object [("kind", .string "condition"), ("when", .object [("op", .string "not")])],
            .null])])]

/-- All that is wrong with the messy document. -/
def messyFaults : List Diagnostic :=
  [(Fault.unsupportedVersion ⟨9, 0⟩).diagnostic "schemaVersion",
    Fault.conditionMissing.diagnostic "root.steps[0].when",
    (Fault.missing "then").diagnostic "root.steps[0]",
    Fault.nodeNotObject.diagnostic "root.steps[1]"]

/-- The messy document is refused with its four faults, a list for a library with one, and what is
no node with one. -/
theorem reading_explained_messyTree :
    ((readDocument messyTree).result = .error messyFaults ∧
      messyFaults ≠ [] ∧ ∀ d ∈ messyFaults, d.isError) ∧
    (∃ faults, Library.parse "shared" "[]" = .error faults ∧
      faults ≠ [] ∧ ∀ d ∈ faults, d.isError) ∧
    (readNode .root .null).value = none ∧ (readNode .root .null).faults ≠ [] := by
  have hdocument : (readDocument messyTree).result = .error messyFaults := by
    simp +decide [messyTree, messyFaults, readDocument, readVersion, readFormat, readIncludes,
      readFragments, readRoot, readNode, readNodes, readCondition, nodeFields?, conditionFields?,
      Entries.get?, Entries.keys, Value.text?, Reading.fail, Reading.rejected, Reading.after,
      Reading.result]
  have hlibrary : Library.parse "shared" "[]" =
      .error [Fault.libraryNotObject.diagnostic "shared:document"] := by rfl
  have hnode : (readNode .root .null).value = none := by
    simp [readNode, Reading.fail, Reading.rejected]
  exact ⟨⟨hdocument, (reading_explained.1 messyTree).1 _ hdocument⟩,
    ⟨_, hlibrary, (reading_explained.2.1 "shared" "[]").1 _ hlibrary⟩,
    hnode, (reading_explained.2.2.1 .root .null).faults_ne_nil hnode⟩

end Remap.Rule
