import Remap.Proofs.Rule.Constants
import Remap.Rule.Writer

/-!
# Rules as JSON values

Rules are written as a JSON value (`Value.json`), whose text is that of the rules
(`writeDocument_json`). It is the JSON value of rules too, with the JSON values of their constants
(`Document.json_tree`), and these agree with the constants where the numbers are finite
(`Value.agrees_json`).
-/

namespace Remap

/-! ## JSON values -/

namespace Value

mutual

/-- The JSON value that a value of a document is written as: there is no number but a finite one,
and both zeros are written as `0`. -/
def json : Value → Value
  | number n => if n.isFinite then number (if n == 0 then 0 else n) else null
  | array items => array (jsonItems items)
  | object fields => object (jsonFields fields)
  | null => null
  | bool b => bool b
  | string s => string s

def jsonItems : List Value → List Value
  | [] => []
  | v :: rest => json v :: jsonItems rest

def jsonFields : List (String × Value) → List (String × Value)
  | [] => []
  | (k, v) :: rest => (k, json v) :: jsonFields rest

end

theorem jsonItems_eq_map (items : List Value) : jsonItems items = items.map json := by
  induction items with
  | nil => rfl
  | cons v rest ih => rw [jsonItems, ih, List.map_cons]

theorem jsonFields_eq_map (fields : List (String × Value)) :
    jsonFields fields = fields.map fun (k, v) => (k, json v) := by
  induction fields with
  | nil => rfl
  | cons e rest ih => rw [jsonFields, ih, List.map_cons]

theorem agrees_json_number {n : Float} (h : n.isFinite = true) :
    (number n).json.agrees (number n) = true := by
  have hnan : n ≠ Float.nan := by
    rintro rfl
    cases h
  rw [json, if_pos h, agrees]
  split
  · next hzero =>
    obtain ⟨-, hzero', heq⟩ := Float.beq_iff_ne_nan_and_eq.mp hzero
    exact Float.beq_iff_ne_nan_and_eq.mpr ⟨hzero', hnan, by grind⟩
  · exact Float.beq_self_iff.mpr hnan

mutual

/-- Where the numbers of a value are finite, the JSON value agrees with it. -/
theorem agrees_json : ∀ v : Value, v.Finite → v.json.agrees v = true
  | null, _ => rfl
  | bool b, _ => by simp [json, agrees]
  | number n, h => agrees_json_number (finite_number_iff.mp h)
  | string s, _ => by simp [json, agrees]
  | array items, h => by
    rw [json, agrees]
    exact agreeItems_json items (finite_array_iff.mp h)
  | object fields, h => by
    rw [json, agrees]
    exact agreeFields_json fields (finite_object_iff.mp h)

theorem agreeItems_json : ∀ items : List Value, (∀ v ∈ items, v.Finite) →
    agreeItems (jsonItems items) items = true
  | [], _ => rfl
  | v :: rest, h => by
    obtain ⟨hv, hrest⟩ := List.forall_mem_cons.mp h
    rw [jsonItems, agreeItems, agrees_json v hv, agreeItems_json rest hrest, Bool.and_self]

theorem agreeFields_json : ∀ fields : List (String × Value), (∀ e ∈ fields, e.2.Finite) →
    agreeFields (jsonFields fields) fields = true
  | [], _ => rfl
  | (k, v) :: rest, h => by
    obtain ⟨hv, hrest⟩ := List.forall_mem_cons.mp h
    rw [jsonFields, agreeFields, agrees_json v hv, agreeFields_json rest hrest, beq_self_eq_true,
      Bool.and_self, Bool.and_self]

end

end Value

/-! ## The text of a JSON value -/

namespace Json

open Decimal

theorem documentText_zero {n : Float} (h : (n == 0) = true) : documentText n = documentText 0 := by
  have hzero : exactInteger? 0 = some 0 := by decide +kernel
  have hnegative : exactInteger? (-0) = some 0 := by decide +kernel
  obtain ⟨-, -, rfl | ⟨rfl, -⟩ | ⟨rfl, -⟩⟩ := Float.beq_iff_ne_nan_and_eq.mp h
  · rfl
  · rfl
  · simp only [documentText, hzero, hnegative]

theorem documentText_of_not_isFinite {n : Float} (h : n.isFinite = false) :
    documentText n = "null" := by
  have hnone : Binary64.ofFloat? n = none := by
    rw [← Option.not_isSome_iff_eq_none, isSome_ofFloat?_iff, h]
    exact Bool.false_ne_true
  have hinteger : exactInteger? n = none := by
    rw [exactInteger?, hnone]
    rfl
  simp only [documentText, hinteger, hnone]

variable {style : Style}

mutual

theorem writeAt_json (hstyle : style.number = documentText) : ∀ (depth : Nat) (v : Value),
    writeAt style depth v.json = writeAt style depth v
  | _, .null | _, .bool _ | _, .string _ => by simp [Value.json]
  | depth, .number n => by
    rw [Value.json, writeAt, hstyle]
    split
    · rw [writeAt, hstyle]
      split
      · next hzero => rw [documentText_zero hzero]
      · rfl
    · next h => rw [writeAt, documentText_of_not_isFinite (by simpa using h)]
  | depth, .array [] => rfl
  | depth, .array (v :: rest) => by
    rw [Value.json, Value.jsonItems, writeAt, writeAt, writeAt_json hstyle _ v,
      writeItems_json hstyle _ rest]
  | depth, .object [] => rfl
  | depth, .object ((k, v) :: rest) => by
    rw [Value.json, Value.jsonFields, writeAt, writeAt, writeAt_json hstyle _ v,
      writeFields_json hstyle _ rest]

theorem writeItems_json (hstyle : style.number = documentText) :
    ∀ (depth : Nat) (items : List Value),
      writeItems style depth (Value.jsonItems items) = writeItems style depth items
  | _, [] => rfl
  | depth, v :: rest => by
    rw [Value.jsonItems, writeItems, writeItems, writeAt_json hstyle _ v,
      writeItems_json hstyle _ rest]

theorem writeFields_json (hstyle : style.number = documentText) :
    ∀ (depth : Nat) (fields : List (String × Value)),
      writeFields style depth (Value.jsonFields fields) = writeFields style depth fields
  | _, [] => rfl
  | depth, (k, v) :: rest => by
    rw [Value.jsonFields, writeFields, writeFields, writeAt_json hstyle _ v,
      writeFields_json hstyle _ rest]

end

/-- The text of a rules document is that of its JSON value. -/
theorem writeDocument_json (pretty : Bool) (v : Value) :
    writeDocument pretty v.json = writeDocument pretty v := by
  rw [writeDocument, writeDocument, writeAt_json rfl]

end Json

/-! ## Rules compared -/

namespace Condition

mutual

/-- Whether two conditions are the same, values that agree aside. -/
def agrees : Condition → Condition → Bool
  | equals s v, equals t w => s == t && v.agrees w
  | greaterThan s v, greaterThan t w => s == t && v.agrees w
  | lessThan s v, lessThan t w => s == t && v.agrees w
  | «exists» s, «exists» t => s == t
  | «matches» s p, «matches» t q => s == t && p == q
  | and cs, and ds | or cs, or ds => agreeAll cs ds
  | not c, not d => agrees c d
  | literal a, literal b => a == b
  | _, _ => false

def agreeAll : List Condition → List Condition → Bool
  | [], [] => true
  | c :: cs, d :: ds => agrees c d && agreeAll cs ds
  | _, _ => false

end

end Condition

namespace Rule

def Source.agrees : Source → Source → Bool
  | path s, path t => s == t
  | constant v, constant w => v.agrees w
  | _, _ => false

def Call.agrees (c d : Call) : Bool := c.name == d.name && Value.agreeItems c.args d.args

def Field.agrees (f g : Field) : Bool :=
  f.source.agrees g.source && f.transforms.isEqv g.transforms Call.agrees
    && f.target == g.target && f.optional == g.optional

namespace Node

mutual

/-- Whether two trees are the same, values that agree aside. -/
def agrees : Node → Node → Bool
  | field f, field g => f.agrees g
  | condition test yes none, condition test' yes' none => test.agrees test' && agrees yes yes'
  | condition test yes (some no), condition test' yes' (some no') =>
    test.agrees test' && agrees yes yes' && agrees no no'
  | merge inputs policy target, merge inputs' policy' target' =>
    agreeAll inputs inputs' && policy == policy' && target == target'
  | split source item target, split source' item' target' =>
    source == source' && agrees item item' && target == target'
  | fragment name, fragment name' => name == name'
  | sequence steps, sequence steps' => agreeAll steps steps'
  | _, _ => false

def agreeAll : List Node → List Node → Bool
  | [], [] => true
  | n :: ns, m :: ms => agrees n m && agreeAll ns ms
  | _, _ => false

end

end Node

/-- Whether two documents are the same, where numbers compare as doubles. -/
def Document.agrees (d e : Document) : Bool :=
  d.schemaVersion == e.schemaVersion && d.inputFormat == e.inputFormat
    && d.outputFormat == e.outputFormat && d.includes == e.includes
    && d.fragments.isEqv e.fragments (fun a b => a.1 == b.1 && a.2.agrees b.2)
    && d.root.agrees e.root

end Rule

/-! ## Images of values -/

theorem isEqv_map {α : Type} {agrees : α → α → Bool} {f : α → α} {xs : List α}
    (h : ∀ x ∈ xs, agrees (f x) x = true) : (xs.map f).isEqv xs agrees = true := by
  induction xs with
  | nil => rfl
  | cons x xs ih =>
    obtain ⟨hx, hxs⟩ := List.forall_mem_cons.mp h
    rw [List.map_cons, List.isEqv, hx, ih hxs, Bool.and_self]

variable {g : Value → Value}

theorem Condition.agrees_mapValues {c : Condition} (h : ∀ v ∈ c.values, (g v).agrees v = true) :
    (c.mapValues g).agrees c = true := by
  have all {cs : List Condition}
      (ih : ∀ c ∈ cs, (∀ v ∈ c.values, (g v).agrees v = true) → (c.mapValues g).agrees c = true)
      (h : ∀ v ∈ listValues cs, (g v).agrees v = true) :
      agreeAll (mapAllValues g cs) cs = true := by
    induction cs with
    | nil => rfl
    | cons c cs ihcs =>
      obtain ⟨hc, hcs⟩ := List.forall_mem_append.mp h
      rw [mapAllValues, agreeAll, ih c List.mem_cons_self hc,
        ihcs (fun d hd => ih d (List.mem_cons_of_mem _ hd)) hcs, Bool.and_self]
  induction c using Condition.induct with
  | equals source value | greaterThan source value | lessThan source value =>
    simpa [mapValues, agrees, values] using h
  | «exists» | «matches» | literal => simp [mapValues, agrees]
  | and cs ih | or cs ih =>
    rw [mapValues, agrees]
    exact all ih h
  | not c ih =>
    rw [mapValues, agrees]
    exact ih h

namespace Rule

theorem Field.agrees_mapValues {f : Field} (h : ∀ v ∈ f.values, (g v).agrees v = true) :
    (f.mapValues g).agrees f = true := by
  obtain ⟨hsource, hcalls⟩ := List.forall_mem_append.mp h
  have hsource : (f.source.mapValues g).agrees f.source = true := by
    cases hs : f.source with
    | path text => simp [Source.mapValues, Source.agrees]
    | constant value =>
      rw [hs] at hsource
      exact hsource value (List.mem_singleton_self _)
  have hcalls : (f.transforms.map (Call.mapValues g)).isEqv f.transforms Call.agrees = true := by
    refine isEqv_map fun c hc => ?_
    rw [Call.agrees, Call.mapValues, Value.agreeItems_map, beq_self_eq_true, Bool.true_and,
      List.all_eq_true]
    exact fun v hv => hcalls v (List.mem_flatMap.mpr ⟨c, hc, hv⟩)
  simp only [Field.agrees, Field.mapValues, hsource, hcalls, beq_self_eq_true, Bool.and_self]

theorem Node.agrees_mapValues {n : Node} (h : ∀ v ∈ n.values, (g v).agrees v = true) :
    (n.mapValues g).agrees n = true := by
  rw [forall_mem_values] at h
  have all {ns : List Node}
      (ih : ∀ n ∈ ns, (∀ m ∈ n.nodes, ∀ v ∈ m.ownValues, (g v).agrees v = true) →
        (n.mapValues g).agrees n = true)
      (h : ∀ m ∈ allNodes ns, ∀ v ∈ m.ownValues, (g v).agrees v = true) :
      agreeAll (mapAllValues g ns) ns = true := by
    induction ns with
    | nil => rfl
    | cons n ns ihns =>
      obtain ⟨hn, hns⟩ := List.forall_mem_append.mp h
      rw [mapAllValues, agreeAll, ih n List.mem_cons_self hn,
        ihns (fun m hm => ih m (List.mem_cons_of_mem _ hm)) hns, Bool.and_self]
  induction n using Node.induct with
  | field f =>
    rw [mapValues, agrees]
    exact Field.agrees_mapValues (List.forall_mem_singleton.mp h)
  | fragment name => simp [mapValues, agrees]
  | ifThen test yes ih =>
    obtain ⟨htest, hyes⟩ := List.forall_mem_cons.mp h
    rw [mapValues, agrees, Condition.agrees_mapValues htest, ih hyes, Bool.and_self]
  | ifElse test yes no ihyes ihno =>
    obtain ⟨htest, hbelow⟩ := List.forall_mem_cons.mp h
    obtain ⟨hyes, hno⟩ := List.forall_mem_append.mp hbelow
    rw [mapValues, agrees, Condition.agrees_mapValues htest, ihyes hyes, ihno hno, Bool.and_self,
      Bool.and_self]
  | merge inputs policy target ih =>
    simp [mapValues, agrees, all ih (List.forall_mem_cons.mp h).2]
  | split source item target ih =>
    simp [mapValues, agrees, ih (List.forall_mem_cons.mp h).2]
  | sequence steps ih =>
    rw [mapValues, agrees, all ih (List.forall_mem_cons.mp h).2]

theorem fragments_isEqv_mapValues {fragments : Entries Node}
    (h : ∀ v ∈ fragments.flatMap fun (_, node) => node.values, (g v).agrees v = true) :
    (fragments.map fun (name, node) => (name, node.mapValues g)).isEqv fragments
      (fun a b => a.1 == b.1 && a.2.agrees b.2) = true := by
  refine isEqv_map fun e he => ?_
  rw [Node.agrees_mapValues fun v hv => h v (List.mem_flatMap.mpr ⟨e, he, hv⟩)]
  simp

theorem Document.agrees_mapValues {d : Document} (h : ∀ v ∈ d.values, (g v).agrees v = true) :
    (d.mapValues g).agrees d = true := by
  obtain ⟨hroot, hfragments⟩ := List.forall_mem_append.mp h
  simp only [agrees, mapValues, fragments_isEqv_mapValues hfragments, Node.agrees_mapValues hroot,
    beq_self_eq_true, Bool.and_self]

end Rule

/-! ## The JSON value of rules -/

open Value (jsonItems jsonFields)

theorem Condition.json_tree (c : Condition) : c.tree.json = (c.mapValues Value.json).tree := by
  have all {cs : List Condition} (ih : ∀ c ∈ cs, c.tree.json = (c.mapValues Value.json).tree) :
      jsonItems (trees cs) = trees (mapAllValues Value.json cs) := by
    induction cs with
    | nil => rfl
    | cons c cs ihcs =>
      rw [trees, jsonItems, ih c List.mem_cons_self,
        ihcs fun d hd => ih d (List.mem_cons_of_mem _ hd)]
      rfl
  induction c using Condition.induct with
  | equals | greaterThan | lessThan | «exists» | «matches» | literal =>
    simp [tree, mapValues, Value.json, jsonFields]
  | and cs ih | or cs ih => simp [tree, mapValues, Value.json, jsonFields, all ih]
  | not c ih => simp [tree, mapValues, Value.json, jsonFields, ih]

namespace Rule

theorem Call.json_tree (c : Call) : c.tree.json = (c.mapValues Value.json).tree := by
  obtain ⟨name, args⟩ := c
  cases args with
  | nil => rfl
  | cons arg args => simp [tree, mapValues, Value.json, jsonFields, Value.jsonItems_eq_map]

theorem Field.json_entries (f : Field) :
    jsonFields f.entries = (f.mapValues Value.json).entries := by
  have hcalls (calls : List Call) : jsonItems (calls.map Call.tree) =
      (calls.map (Call.mapValues Value.json)).map Call.tree := by
    rw [Value.jsonItems_eq_map, List.map_map, List.map_map]
    exact List.map_congr_left fun c _ => c.json_tree
  obtain ⟨source, calls, target, optional⟩ := f
  cases source <;> cases calls <;> cases optional <;>
    simp [entries, mapValues, Source.mapValues, Source.entry, entryIf, jsonFields, Value.json,
      hcalls, -List.map_cons]

theorem Node.json_tree (n : Node) : n.tree.json = (n.mapValues Value.json).tree := by
  have all {ns : List Node} (ih : ∀ n ∈ ns, n.tree.json = (n.mapValues Value.json).tree) :
      jsonItems (trees ns) = trees (mapAllValues Value.json ns) := by
    induction ns with
    | nil => rfl
    | cons n ns ihns =>
      rw [trees, jsonItems, ih n List.mem_cons_self,
        ihns fun m hm => ih m (List.mem_cons_of_mem _ hm)]
      rfl
  induction n using Node.induct with
  | field f => simp only [tree, mapValues, Value.json, jsonFields, Field.json_entries]
  | fragment name => rfl
  | ifThen test yes ih =>
    simp only [tree, mapValues, Value.json, jsonFields, Condition.json_tree, ih]
  | ifElse test yes no ihyes ihno =>
    simp only [tree, mapValues, Value.json, jsonFields, Condition.json_tree, ihyes, ihno]
  | merge inputs policy target ih =>
    by_cases hpolicy : policy = .standard <;> by_cases htarget : target = "" <;>
      simp [tree, mapValues, Value.json, jsonFields, entryIf, hpolicy, htarget, all ih]
  | split source item target ih => simp only [tree, mapValues, Value.json, jsonFields, ih]
  | sequence steps ih => simp only [tree, mapValues, Value.json, jsonFields, all ih]

theorem json_trees (fragments : Entries Node) :
    jsonFields (fragments.map fun (name, node) => (name, node.tree)) =
      (fragments.map fun (name, node) => (name, node.mapValues Value.json)).map
        fun (name, node) => (name, node.tree) := by
  rw [Value.jsonFields_eq_map, List.map_map, List.map_map]
  exact List.map_congr_left fun e _ => by simp [Node.json_tree]

theorem Document.json_tree (d : Document) : d.tree.json = (d.mapValues Value.json).tree := by
  obtain ⟨version, input, output, includes, fragments, root⟩ := d
  have hincludes : jsonItems (includes.map Value.string) = includes.map Value.string := by
    rw [Value.jsonItems_eq_map, List.map_map]
    exact List.map_congr_left fun name _ => by simp [Value.json]
  cases includes <;> cases fragments <;>
    simp [tree, mapValues, entryIf, Value.json, jsonFields, hincludes, json_trees, Node.json_tree,
      -List.map_cons, -List.map_map]

end Rule

end Remap
