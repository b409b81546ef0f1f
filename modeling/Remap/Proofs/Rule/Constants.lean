import Remap.Proofs.Json.Finite
import Remap.Proofs.Plan.Lowering
import Remap.Proofs.Rule.Reading
import Remap.Proofs.Rule.RoundTrip

/-!
# The constants of rules

Rules hold payload values: the constants that fields take, the arguments of their transforms, and
what conditions compare with. In rules that are read from a text, the numbers among them are finite
(`Document.allFinite_of_parse`, `Library.allFinite_of_parse`).
-/

namespace Remap.Condition

mutual

/-- The values that a condition compares with. -/
def values : Condition → List Value
  | equals _ value | greaterThan _ value | lessThan _ value => [value]
  | and conditions | or conditions => listValues conditions
  | not condition => values condition
  | «exists» _ | «matches» .. | literal _ => []

def listValues : List Condition → List Value
  | [] => []
  | c :: cs => values c ++ listValues cs

end

theorem mem_listValues {cs : List Condition} {v : Value} :
    v ∈ listValues cs ↔ ∃ c ∈ cs, v ∈ c.values := by
  induction cs with
  | nil => simp [listValues]
  | cons c cs ih => simp [listValues, ih]

mutual

/-- A condition that compares with the images of the values. -/
def mapValues (f : Value → Value) : Condition → Condition
  | equals source value => equals source (f value)
  | greaterThan source value => greaterThan source (f value)
  | lessThan source value => lessThan source (f value)
  | and conditions => and (mapAllValues f conditions)
  | or conditions => or (mapAllValues f conditions)
  | not condition => not (mapValues f condition)
  | «exists» source => «exists» source
  | «matches» source pattern => «matches» source pattern
  | literal value => literal value

def mapAllValues (f : Value → Value) : List Condition → List Condition
  | [] => []
  | c :: cs => mapValues f c :: mapAllValues f cs

end

end Remap.Condition

namespace Remap.Rule

namespace Source

def values : Source → List Value
  | path _ => []
  | constant value => [value]

def mapValues (f : Value → Value) : Source → Source
  | path text => path text
  | constant value => constant (f value)

end Source

def Call.mapValues (f : Value → Value) (c : Call) : Call := { c with args := c.args.map f }

namespace Field

/-- The constant that a field takes and the arguments of its transforms. -/
def values (f : Field) : List Value := f.source.values ++ f.transforms.flatMap Call.args

def mapValues (g : Value → Value) (f : Field) : Field :=
  { f with source := f.source.mapValues g, transforms := f.transforms.map (Call.mapValues g) }

end Field

namespace Node

/-- The values that stand in a node itself. -/
def ownValues : Node → List Value
  | field f => f.values
  | condition test _ _ => test.values
  | merge .. | split .. | fragment _ | sequence _ => []

/-- The values that stand in a tree. -/
def values (n : Node) : List Value := n.nodes.flatMap ownValues

theorem forall_mem_values {P : Value → Prop} {n : Node} :
    (∀ v ∈ n.values, P v) ↔ ∀ m ∈ n.nodes, ∀ v ∈ m.ownValues, P v := by
  simp only [values, List.mem_flatMap]
  exact ⟨fun h m hm v hv => h v ⟨m, hm, hv⟩, fun h v ⟨m, hm, hv⟩ => h m hm v hv⟩

mutual

/-- A tree with the images of its values. -/
def mapValues (g : Value → Value) : Node → Node
  | field f => field (f.mapValues g)
  | fragment name => fragment name
  | condition test yes none => condition (test.mapValues g) (mapValues g yes) none
  | condition test yes (some no) =>
    condition (test.mapValues g) (mapValues g yes) (some (mapValues g no))
  | merge inputs policy target => merge (mapAllValues g inputs) policy target
  | split source item target => split source (mapValues g item) target
  | sequence steps => sequence (mapAllValues g steps)

def mapAllValues (g : Value → Value) : List Node → List Node
  | [] => []
  | n :: ns => mapValues g n :: mapAllValues g ns

end

end Node

namespace Document

/-- The values that stand in the rules of a document, those of its fragments included. -/
def values (d : Document) : List Value := d.root.values ++ d.fragments.flatMap (·.2.values)

/-- A document with the images of the values in its rules. -/
def mapValues (g : Value → Value) (d : Document) : Document :=
  { d with
    fragments := d.fragments.map fun (name, node) => (name, node.mapValues g)
    root := d.root.mapValues g }

end Document

end Remap.Rule

namespace Remap

open Value (AllFinite)

namespace Rule

open Reading

variable {fields : Entries Value} {path : String} {v : Value}

/-! ## Fields and conditions -/

theorem yields_readSource (h : (Value.object fields).Finite) :
    (readSource path fields).Yields fun s => AllFinite s.values := by
  unfold readSource
  split
  · exact yields_pure.mpr nofun
  · exact yields_fail
  · next v _ hv => exact yields_pure.mpr (by simpa [AllFinite, Source.values] using h.of_get? hv)
  · exact yields_fail
  · exact yields_fail

theorem yields_readCall (hv : v.Finite) (path : String) (position : Nat) :
    (readCall path position v).Yields fun c => AllFinite c.args := by
  unfold readCall
  split
  · exact yields_pure.mpr nofun
  · next fields =>
    simp only
    split
    · next hargs _ =>
      refine yields_pure.mpr ?_
      split at hargs
      · cases hargs
        exact nofun
      · next args hget =>
        have hfinite := hv.of_get? hget
        cases args with
        | array items =>
          cases hargs
          exact Value.finite_array_iff.mp hfinite
        | _ => cases hargs
    · exact yields_fail
  · exact yields_fail

theorem yields_readField (h : (Value.object fields).Finite) (path : String) :
    (readField path fields).Yields fun f => AllFinite f.values := by
  have hcalls : (readCalls path fields).Yields fun cs => ∀ c ∈ cs, AllFinite c.args := by
    unfold readCalls
    split
    · exact yields_pure.mpr nofun
    · next items hitems =>
      exact .list fun v hv i =>
        yields_readCall (Value.finite_array_iff.mp (h.of_get? hitems) v hv) path (i + 1)
    · exact yields_fail
  refine ((((yields_readSource h).map ?_).seq hcalls).seq (yields_true _)).seq (yields_true _)
  intro source hsource calls hcalls target _ optional _ v hv
  rcases List.mem_append.mp hv with hv | hv
  · exact hsource v hv
  · obtain ⟨call, hcall, hv⟩ := List.mem_flatMap.mp hv
    exact hcalls call hcall v hv

theorem yields_readLeaf (h : (Value.object fields).Finite) (path op : String) :
    (readLeaf path op fields).Yields fun c => AllFinite c.values := by
  have hvalue : (readConditionValue path op fields).Yields Value.Finite := by
    unfold readConditionValue
    split
    · next v hv => exact yields_pure.mpr (h.of_get? hv)
    · exact yields_fail
  have compare {make : String → Value → Condition}
      (hmake : ∀ source v, (make source v).values = [v]) :
      (make <$> readConditionSource path op fields <*> readConditionValue path op fields).Yields
        fun c => AllFinite c.values := by
    refine ((yields_true _).map ?_).seq hvalue
    intro source _ v hv
    simpa [AllFinite, hmake] using hv
  unfold readLeaf
  split
  · exact compare fun _ _ => rfl
  · exact compare fun _ _ => rfl
  · exact compare fun _ _ => rfl
  · exact (yields_true _).map fun _ _ => List.forall_mem_nil _
  · exact ((yields_true _).map fun _ _ _ _ => List.forall_mem_nil _).seq (yields_true _)
  · exact (yields_true _).map fun _ _ => List.forall_mem_nil _

theorem allFinite_listValues {cs : List Condition} (h : ∀ c ∈ cs, AllFinite c.values) :
    AllFinite (Condition.listValues cs) := by
  intro v hv
  obtain ⟨c, hc, hv⟩ := Condition.mem_listValues.mp hv
  exact h c hc v hv

mutual

theorem yields_readCondition (path : String) (v : Value) (hv : v.Finite) :
    (readCondition path v).Yields fun c => AllFinite c.values := by
  unfold readCondition
  split
  case h_2 => exact yields_fail
  case h_1 fields =>
    split
    · exact yields_fail
    split
    · exact yields_fail
    split
    · exact yields_fail
    split
    · split
      case h_1 items hitems =>
        have := Value.sizeOf_items_lt_of_get? hitems
        refine (yields_readConditions _ _ items ?_).map fun cs hcs => ?_
        · exact Value.finite_array_iff.mp (hv.of_get? hitems)
        · split <;> exact allFinite_listValues hcs
      · exact yields_fail
    split
    · split
      case h_1 inner hinner =>
        have := Value.sizeOf_lt_of_get? hinner
        exact (yields_readCondition _ inner (hv.of_get? hinner)).map fun _ hc => hc
      · exact yields_fail
    · exact yields_readLeaf hv _ _
termination_by sizeOf v
decreasing_by all_goals (subst_vars; assumption)

theorem yields_readConditions (path : String) (i : Nat) (items : List Value)
    (h : ∀ v ∈ items, v.Finite) :
    (readConditions path i items).Yields fun cs => ∀ c ∈ cs, AllFinite c.values := by
  unfold readConditions
  split
  · exact yields_pure.mpr nofun
  · next item rest =>
    refine ((yields_readCondition _ item (h item List.mem_cons_self)).map ?_).seq
      (yields_readConditions _ _ rest fun v hv => h v (List.mem_cons_of_mem _ hv))
    exact fun c hc cs hcs => List.forall_mem_cons.mpr ⟨hc, hcs⟩
termination_by sizeOf items

end

/-! ## Nodes -/

theorem allFinite_values_iff {n : Node} :
    AllFinite n.values ↔ ∀ m ∈ n.nodes, AllFinite m.ownValues :=
  Node.forall_mem_values

theorem allFinite_allNodes {ns : List Node} (h : ∀ n ∈ ns, AllFinite n.values) :
    ∀ m ∈ Node.allNodes ns, AllFinite m.ownValues := by
  intro m hm
  obtain ⟨n, hn, hm⟩ := Node.mem_allNodes.mp hm
  exact allFinite_values_iff.mp (h n hn) m hm

mutual

theorem yields_readNode (place : Place) (v : Value) (hv : v.Finite) :
    (readNode place v).Yields fun n => AllFinite n.values := by
  unfold readNode
  split
  case h_2 => exact yields_fail
  case h_1 fields =>
    split
    · exact yields_fail
    split
    · exact yields_fail
    refine yields_after.mpr ?_
    simp only [allFinite_values_iff]
    -- The kinds of nodes, in the order in which the reader tries them.
    split
    · exact (yields_readField hv _).map fun f hf => List.forall_mem_singleton.mpr hf
    split
    · have htest : Yields (fun c => AllFinite c.values) (match Entries.get? "when" fields with
          | some test => readCondition (place.text ++ ".when") test
          | none => fail place.text (.missing "when")) := by
        split
        · next test htest => exact yields_readCondition _ test (hv.of_get? htest)
        · exact yields_fail
      refine ((htest.map ?_).seq (?yes : Yields (fun n => AllFinite n.values) _)).seq
        (?no : Yields (fun o => ∀ n, o = some n → AllFinite n.values) _)
      case yes =>
        split
        case h_1 yes hyes =>
          have := Value.sizeOf_lt_of_get? hyes
          exact yields_readNode _ yes (hv.of_get? hyes)
        · exact yields_fail
      case no =>
        split
        case h_1 no hno =>
          have := Value.sizeOf_lt_of_get? hno
          exact (yields_readNode _ no (hv.of_get? hno)).map fun n hn m hm => by cases hm; exact hn
        · exact yields_pure.mpr nofun
      intro test htest yes hyes no hno
      cases no with
      | none => exact List.forall_mem_cons.mpr ⟨htest, allFinite_values_iff.mp hyes⟩
      | some no =>
        refine List.forall_mem_cons.mpr ⟨htest, List.forall_mem_append.mpr ⟨?_, ?_⟩⟩
        · exact allFinite_values_iff.mp hyes
        · exact allFinite_values_iff.mp (hno no rfl)
    split
    · refine ((Yields.map (?inputs : Yields (fun ns => ∀ n ∈ ns, AllFinite n.values) _) ?_).seq
        (yields_true _)).seq (yields_true _)
      case inputs =>
        split
        case h_1 items hitems =>
          have := Value.sizeOf_items_lt_of_get? hitems
          exact yields_readNodes _ _ items (Value.finite_array_iff.mp (hv.of_get? hitems))
        · exact yields_fail
        · exact yields_fail
      intro inputs hinputs policy _ target _
      exact List.forall_mem_cons.mpr ⟨nofun, allFinite_allNodes hinputs⟩
    split
    · refine (((yields_true _).map ?_).seq (?item : Yields (fun n => AllFinite n.values) _)).seq
        (yields_true _)
      case item =>
        split
        case h_1 item hitem =>
          have := Value.sizeOf_lt_of_get? hitem
          exact yields_readNode _ item (hv.of_get? hitem)
        · exact yields_fail
      intro source _ item hitem target _
      exact List.forall_mem_cons.mpr ⟨nofun, allFinite_values_iff.mp hitem⟩
    split
    · exact (yields_true _).map fun _ _ => List.forall_mem_singleton.mpr nofun
    · split
      case h_1 items hitems =>
        have := Value.sizeOf_items_lt_of_get? hitems
        refine (yields_readNodes _ _ items ?_).map fun ns hns => ?_
        · exact Value.finite_array_iff.mp (hv.of_get? hitems)
        · exact List.forall_mem_cons.mpr ⟨nofun, allFinite_allNodes hns⟩
      · exact yields_fail
      · exact yields_fail
termination_by sizeOf v
decreasing_by all_goals (subst_vars; assumption)

theorem yields_readNodes (place : Nat → Place) (i : Nat) (items : List Value)
    (h : ∀ v ∈ items, v.Finite) :
    (readNodes place i items).Yields fun ns => ∀ n ∈ ns, AllFinite n.values := by
  unfold readNodes
  split
  · exact yields_pure.mpr nofun
  · next item rest =>
    refine ((yields_readNode _ item (h item List.mem_cons_self)).map ?_).seq
      (yields_readNodes _ _ rest fun v hv => h v (List.mem_cons_of_mem _ hv))
    exact fun n hn ns hns => List.forall_mem_cons.mpr ⟨hn, hns⟩
termination_by sizeOf items

end

/-! ## Documents and libraries -/

theorem yields_readFragments (h : (Value.object fields).Finite) (owner : String) :
    (readFragments owner fields).Yields fun es => ∀ e ∈ es, AllFinite e.2.values := by
  unfold readFragments
  split
  · exact yields_pure.mpr nofun
  · next entries hentries =>
    refine .all fun r hr => ?_
    obtain ⟨⟨name, node⟩, hmem, rfl⟩ := List.mem_map.mp hr
    have hnode := Value.finite_object_iff.mp (h.of_get? hentries) _ hmem
    exact (yields_readNode _ node hnode).map fun _ hn => hn
  · exact yields_fail

theorem allFinite_document_iff {d : Document} : AllFinite d.values ↔
    AllFinite d.root.values ∧ ∀ e ∈ d.fragments, AllFinite e.2.values := by
  simp only [AllFinite, Document.values, List.mem_append, List.mem_flatMap]
  exact ⟨fun h => ⟨fun v hv => h v (.inl hv), fun e he v hv => h v (.inr ⟨e, he, hv⟩)⟩,
    fun h v hv => hv.elim (h.1 v) fun ⟨e, he, hv⟩ => h.2 e he v hv⟩

theorem Library.allFinite_of_parse {name text : String} {library : Library}
    (h : Library.parse name text = .ok library) :
    ∀ e ∈ library.fragments, AllFinite e.2.values := by
  unfold Library.parse at h
  split at h
  · next v hread =>
    have hv := Json.finite_of_read hread
    refine (?_ : Yields (fun l => ∀ e ∈ l.fragments, AllFinite e.2.values) _) _ (value_of_result h)
    unfold readLibrary
    split
    · exact ((yields_true _).map fun _ _ _ h => h).seq (yields_readFragments hv _)
    · exact yields_fail
  · cases h

theorem yields_readVersion (fields : Entries Value) : (readVersion fields).Yields fun text =>
    ∃ version, Version.parse text = .ok version ∧ version.isSupported = true := by
  unfold readVersion
  split
  · exact yields_fail
  · split
    · next version hparse =>
      split
      · next hsupported => exact yields_pure.mpr ⟨version, hparse, hsupported⟩
      · exact yields_fail
    · exact yields_fail
  · exact yields_fail

theorem yields_readIncludes (owner : String) (fields : Entries Value) :
    (readIncludes owner fields).Yields fun names => ∀ name ∈ names, name.isEmpty = false := by
  unfold readIncludes
  split
  · exact yields_pure.mpr nofun
  · refine .list fun v _ i => ?_
    unfold readInclude
    split
    · split
      · exact yields_fail
      · next hname => exact yields_pure.mpr (by simpa using hname)
    · exact yields_fail
  · exact yields_fail

theorem yields_readDocument (hv : v.Finite) :
    (readDocument v).Yields fun d => d.Declared ∧ AllFinite d.values := by
  unfold readDocument
  split
  case h_2 => exact yields_fail
  case h_1 fields =>
    have hroot : (readRoot fields).Yields fun n => AllFinite n.values := by
      unfold readRoot
      split
      · next root hget => exact yields_readNode _ root (hv.of_get? hget)
      · exact yields_fail
    refine ((((((yields_readVersion fields).map ?_).seq (yields_true _)).seq (yields_true _)).seq
      (yields_readIncludes "" fields)).seq (yields_readFragments hv "")).seq hroot
    intro version hversion input _ output _ includes hincludes fragments hfragments root hroot
    exact ⟨⟨hversion, hincludes⟩, allFinite_document_iff.mpr ⟨hroot, hfragments⟩⟩

namespace Document

variable {text : String} {d : Document}

theorem exists_value_of_parse (h : parse text = .ok d) :
    ∃ v, v.Finite ∧ (readDocument v).value = some d := by
  unfold parse at h
  split at h
  · next v hread => exact ⟨v, Json.finite_of_read hread, value_of_result h⟩
  · cases h

theorem declared_of_parse (h : parse text = .ok d) : d.Declared := by
  obtain ⟨v, hv, hd⟩ := exists_value_of_parse h
  exact (yields_readDocument hv d hd).1

theorem allFinite_of_parse (h : parse text = .ok d) : AllFinite d.values := by
  obtain ⟨v, hv, hd⟩ := exists_value_of_parse h
  exact (yields_readDocument hv d hd).2

end Document

end Rule

end Remap
