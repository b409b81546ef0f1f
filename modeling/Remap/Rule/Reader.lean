import Remap.Json.Reader
import Remap.Reading
import Remap.Rule.Basic
import Remap.Rule.Place
import Remap.Version

/-!
# Reading rules

Rules are read from JSON. Reading goes on past a fault, so that all faults of a text are reported
at once, in the order of the text's parts; a document is returned only where there is none.
-/

namespace Remap.Rule

/-- Why a text or a part of it is no rules. -/
inductive Fault where
  | json (fault : Json.Located)
  | documentNotObject
  | libraryNotObject
  | missing (field : String)
  | notText (field : String)
  | notList (field : String)
  | unsupportedVersion (version : Version)
  | malformedVersion (malformed : Version.Malformed)
  | unknownFormat (name : String)
  | includesNotList
  | includeWithoutName
  | fragmentsNotObject
  | nodeNotObject
  | nodeWithoutKind
  | unknownKind (kind : String)
  | unknownField (field kind : String)
  | sourceNotText
  | sourceAndValue
  | sourceMissing
  | optionalNotBool
  | callShape (position : Nat)
  | callKind (position : Nat)
  | unknownPolicy (name : String)
  | conditionNotObject
  | conditionWithoutOp
  | unknownOp (op : String)
  | unknownConditionField (field op : String)
  | conditionSource (op : String)
  | conditionValue (op : String)
  | conditionPattern
  | conditionList (op : String)
  | conditionMissing
  | conditionLiteral
deriving DecidableEq, Repr

namespace Fault

def code : Fault → Code
  | json _ => .invalidJson
  | unsupportedVersion _ | malformedVersion _ => .unsupportedSchemaVersion
  | unknownFormat _ => .unknownFormat
  | conditionNotObject | conditionWithoutOp | unknownOp _ | unknownConditionField ..
  | conditionSource _
  | conditionValue _ | conditionPattern | conditionList _ | conditionMissing
  | conditionLiteral => .invalidCondition
  | _ => .invalidShape

def message : Fault → String
  | json fault => fault.message
  | documentNotObject => "rules document must be a JSON object"
  | libraryNotObject => "fragment library must be a JSON object"
  | missing field => "missing '" ++ field ++ "'"
  | notText field => "'" ++ field ++ "' must be a string"
  | notList field => "'" ++ field ++ "' must be an array"
  | unsupportedVersion version =>
    "schema version " ++ version.text ++ " is not supported (this engine supports up to "
      ++ Version.newest.text ++ ")"
  | malformedVersion malformed => malformed.message
  | unknownFormat name => "unknown format '" ++ name ++ "' (expected json, xml or query)"
  | includesNotList => "'includes' must be an array of library names"
  | includeWithoutName => "library name must be a non-empty string"
  | fragmentsNotObject => "'fragments' must be an object of named nodes"
  | nodeNotObject => "rule node must be an object"
  | nodeWithoutKind => "rule node needs a string 'kind'"
  | unknownKind kind => "unknown node kind '" ++ kind ++ "'"
  | unknownField field kind => "unknown field '" ++ field ++ "' on " ++ kind ++ " node"
  | sourceNotText => "'source' must be a string path"
  | sourceAndValue => "field node takes either 'source' or 'value', not both"
  | sourceMissing => "field node needs 'source' or 'value'"
  | optionalNotBool => "'optional' must be a boolean"
  | callShape position =>
    "transform " ++ toString position
      ++ " must be a name or \x7b\"name\": ..., \"args\": [...]\x7d"
  | callKind position => "transform " ++ toString position ++ " must be a name or an object"
  | unknownPolicy name =>
    "unknown merge policy '" ++ name ++ "' (expected lastWins, firstWins, error or appendArray)"
  | conditionNotObject => "condition must be an object"
  | conditionWithoutOp => "condition needs a string 'op'"
  | unknownOp op => "unknown condition op '" ++ op ++ "'"
  | unknownConditionField field op =>
    "unknown field '" ++ field ++ "' on '" ++ op ++ "' condition"
  | conditionSource op => "'" ++ op ++ "' needs a string 'source'"
  | conditionValue op => "'" ++ op ++ "' needs a 'value'"
  | conditionPattern => "'matches' needs a string 'pattern'"
  | conditionList op => "'" ++ op ++ "' needs a 'conditions' array"
  | conditionMissing => "'not' needs a 'condition'"
  | conditionLiteral => "'literal' needs a boolean 'value'"

/-- A fault as a finding at a place. -/
def diagnostic (f : Fault) (path : String) : Diagnostic := ⟨f.code, path, f.message⟩

end Fault

end Remap.Rule

namespace Remap.Reading

variable {α : Type}

/-- A part of rules that could not be read, for one reason. -/
def fail (path : String) (fault : Rule.Fault) : Reading α := rejected (fault.diagnostic path)

def text (path field : String) (fields : Entries Value) : Reading String :=
  match Entries.get? field fields with
  | some (.string s) => pure s
  | some _ => fail path (.notText field)
  | none => fail path (.missing field)

end Remap.Reading

namespace Remap.Rule

/-- The place of faults that concern a text as a whole. -/
def documentPath : String := "document"

def nodeFields? : String → Option (List String)
  | "field" => some ["kind", "source", "value", "transforms", "target", "optional"]
  | "condition" => some ["kind", "when", "then", "else"]
  | "merge" => some ["kind", "inputs", "policy", "target"]
  | "split" => some ["kind", "source", "item", "target"]
  | "fragment" => some ["kind", "name"]
  | "sequence" => some ["kind", "steps"]
  | _ => none

/-- The fields that a condition of an operator may have. -/
def conditionFields? : String → Option (List String)
  | "equals" | "greaterThan" | "lessThan" => some ["op", "source", "value"]
  | "exists" => some ["op", "source"]
  | "matches" => some ["op", "source", "pattern"]
  | "and" | "or" => some ["op", "conditions"]
  | "not" => some ["op", "condition"]
  | "literal" => some ["op", "value"]
  | _ => none

/-! ## Fields -/

def readSource (path : String) (fields : Entries Value) : Reading Source :=
  match Entries.get? "source" fields, Entries.get? "value" fields with
  | some (.string s), none => pure (.path s)
  | some _, none => .fail path .sourceNotText
  | none, some v => pure (.constant v)
  | some _, some _ => .fail path .sourceAndValue
  | none, none => .fail path .sourceMissing

/-- The call of a transform at the given position, counted from one. -/
def readCall (path : String) (position : Nat) : Value → Reading Call
  | .string name => pure ⟨name, []⟩
  | .object fields =>
    let args := match Entries.get? "args" fields with
      | none => some []
      | some args => args.items?
    let known := (Entries.keys fields).all fun key => key == "name" || key == "args"
    match (Entries.get? "name" fields).bind Value.text?, args, known with
    | some name, some args, true => pure ⟨name, args⟩
    | _, _, _ => .fail path (.callShape position)
  | _ => .fail path (.callKind position)

def readCalls (path : String) (fields : Entries Value) : Reading (List Call) :=
  match Entries.get? "transforms" fields with
  | none => pure []
  | some (.array items) => Reading.list (fun i item => readCall path (i + 1) item) items
  | some _ => .fail path (.notList "transforms")

/-- Whether a field may be absent from the input. -/
def readOptional (path : String) (fields : Entries Value) : Reading Bool :=
  match Entries.get? "optional" fields with
  | none => pure false
  | some (.bool b) => pure b
  | some _ => .fail path .optionalNotBool

def readField (path : String) (fields : Entries Value) : Reading Field :=
  Field.mk <$> readSource path fields <*> readCalls path fields
    <*> Reading.text path "target" fields <*> readOptional path fields

def readPolicy (path : String) (fields : Entries Value) : Reading MergePolicy :=
  match Entries.get? "policy" fields with
  | none => pure MergePolicy.standard
  | some (.string name) =>
    match MergePolicy.ofName? name with
    | some policy => pure policy
    | none => .fail path (.unknownPolicy name)
  | some _ => .fail path (.notText "policy")

/-- The target of a merge; without one it is the scope itself. -/
def readMergeTarget (path : String) (fields : Entries Value) : Reading String :=
  match Entries.get? "target" fields with
  | none => pure ""
  | some _ => Reading.text path "target" fields

/-! ## Conditions -/

def readConditionSource (path op : String) (fields : Entries Value) : Reading String :=
  match (Entries.get? "source" fields).bind Value.text? with
  | some s => pure s
  | none => .fail path (.conditionSource op)

def readConditionValue (path op : String) (fields : Entries Value) : Reading Value :=
  match Entries.get? "value" fields with
  | some v => pure v
  | none => .fail path (.conditionValue op)

def readConditionPattern (path : String) (fields : Entries Value) : Reading String :=
  match (Entries.get? "pattern" fields).bind Value.text? with
  | some s => pure s
  | none => .fail path .conditionPattern

/-- The truth of a literal condition. -/
def readLiteral (path : String) (fields : Entries Value) : Reading Bool :=
  match (Entries.get? "value" fields).bind Value.bool? with
  | some b => pure b
  | none => .fail path .conditionLiteral

def readLeaf (path op : String) (fields : Entries Value) : Reading Condition :=
  match op with
  | "equals" =>
    Condition.equals <$> readConditionSource path op fields <*> readConditionValue path op fields
  | "greaterThan" =>
    Condition.greaterThan <$> readConditionSource path op fields
      <*> readConditionValue path op fields
  | "lessThan" =>
    Condition.lessThan <$> readConditionSource path op fields <*> readConditionValue path op fields
  | "exists" => Condition.exists <$> readConditionSource path op fields
  | "matches" =>
    Condition.matches <$> readConditionSource path op fields <*> readConditionPattern path fields
  | _ => Condition.literal <$> readLiteral path fields

mutual

def readCondition (path : String) (v : Value) : Reading Condition :=
  match v with
  | .object fields =>
    match (Entries.get? "op" fields).bind Value.text? with
    | none => .fail path .conditionWithoutOp
    | some op =>
      match conditionFields? op with
      | none => .fail path (.unknownOp op)
      | some allowed =>
        match (Entries.keys fields).find? fun key => !allowed.contains key with
        | some key => .fail path (.unknownConditionField key op)
        | none =>
          if op = "and" ∨ op = "or" then
            match _h : Entries.get? "conditions" fields with
            | some (.array items) =>
              (if op = "and" then Condition.and else Condition.or) <$>
                readConditions (path ++ ".conditions") 0 items
            | _ => .fail path (.conditionList op)
          else if op = "not" then
            match _h : Entries.get? "condition" fields with
            | some inner => Condition.not <$> readCondition (path ++ ".condition") inner
            | none => .fail path .conditionMissing
          else readLeaf path op fields
  | _ => .fail path .conditionNotObject
termination_by sizeOf v
decreasing_by
  · have := Entries.sizeOf_lt_of_get? _h; simp_all; omega
  · have := Entries.sizeOf_lt_of_get? _h; simp_all; omega

/-- The conditions of a list, of which the first has number `i`. -/
def readConditions (path : String) (i : Nat) (items : List Value) : Reading (List Condition) :=
  match items with
  | [] => pure []
  | item :: rest =>
    List.cons <$> readCondition (path ++ Step.indexText i) item <*> readConditions path (i + 1) rest
termination_by sizeOf items

end

/-! ## Nodes -/

mutual

def readNode (place : Place) (v : Value) : Reading Node :=
  match v with
  | .object fields =>
    let path := place.text
    match (Entries.get? "kind" fields).bind Value.text? with
    | none => .fail path .nodeWithoutKind
    | some kind =>
      match nodeFields? kind with
      | none => .fail path (.unknownKind kind)
      | some allowed =>
        let strange := (Entries.keys fields).filter fun key => !allowed.contains key
        let unknown := strange.map fun key => (Fault.unknownField key kind).diagnostic path
        Reading.after unknown <|
          if kind = "field" then Node.field <$> readField path fields
          else if kind = "condition" then
            let test := match Entries.get? "when" fields with
              | some test => readCondition (path ++ ".when") test
              | none => .fail path (.missing "when")
            let yes := match _h : Entries.get? "then" fields with
              | some yes => readNode (place.down .yes) yes
              | none => .fail path (.missing "then")
            let no := match _h : Entries.get? "else" fields with
              | some no => some <$> readNode (place.down .no) no
              | none => pure none
            Node.condition <$> test <*> yes <*> no
          else if kind = "merge" then
            let inputs := match _h : Entries.get? "inputs" fields with
              | some (.array items) => readNodes (fun i => place.down (.input i)) 0 items
              | some _ => .fail path (.notList "inputs")
              | none => .fail path (.missing "inputs")
            Node.merge <$> inputs <*> readPolicy path fields <*> readMergeTarget path fields
          else if kind = "split" then
            let source := Reading.text path "source" fields
            let item := match _h : Entries.get? "item" fields with
              | some item => readNode (place.down .item) item
              | none => .fail path (.missing "item")
            Node.split <$> source <*> item <*> Reading.text path "target" fields
          else if kind = "fragment" then Node.fragment <$> Reading.text path "name" fields
          else
            match _h : Entries.get? "steps" fields with
            | some (.array items) =>
              Node.sequence <$> readNodes (fun i => place.down (.step i)) 0 items
            | some _ => .fail path (.notList "steps")
            | none => .fail path (.missing "steps")
  | _ => .fail place.text .nodeNotObject
termination_by sizeOf v
decreasing_by
  all_goals
    have := Entries.sizeOf_lt_of_get? _h
    simp_all
    omega

/-- The rules of a list, of which the first stands at `place i`. -/
def readNodes (place : Nat → Place) (i : Nat) (items : List Value) : Reading (List Node) :=
  match items with
  | [] => pure []
  | item :: rest => List.cons <$> readNode (place i) item <*> readNodes place (i + 1) rest
termination_by sizeOf items

end

/-! ## Documents and libraries -/

def readInclude (path : String) : Value → Reading String
  | .string name => if name.isEmpty then .fail path .includeWithoutName else pure name
  | _ => .fail path .includeWithoutName

/-- The libraries that a text includes; `owner` stands in front of the places of faults. -/
def readIncludes (owner : String) (fields : Entries Value) : Reading (List String) :=
  match Entries.get? "includes" fields with
  | none => pure []
  | some (.array items) =>
    Reading.list (fun i => readInclude (owner ++ "includes" ++ Step.indexText i)) items
  | some _ => .fail (owner ++ "includes") .includesNotList

def fragmentPlace (owner name : String) : Place := .top (owner ++ "fragments." ++ name)

def readFragments (owner : String) (fields : Entries Value) : Reading (Entries Node) :=
  match Entries.get? "fragments" fields with
  | none => pure []
  | some (.object entries) =>
    Reading.all <| entries.map fun (name, node) =>
      (fun node => (name, node)) <$> readNode (fragmentPlace owner name) node
  | some _ => .fail (owner ++ "fragments") .fragmentsNotObject

/-- The version that a document declares. -/
def readVersion (fields : Entries Value) : Reading String :=
  match Entries.get? "schemaVersion" fields with
  | none => .fail documentPath (.missing "schemaVersion")
  | some (.string text) =>
    match Version.parse text with
    | .ok version =>
      if version.isSupported then pure text
      else .fail "schemaVersion" (.unsupportedVersion version)
    | .error malformed => .fail "schemaVersion" (.malformedVersion malformed)
  | some _ => .fail "schemaVersion" (.notText "schemaVersion")

/-- A format that a document declares, by its exact name. -/
def readFormat (field : String) (fields : Entries Value) : Reading Format :=
  match Entries.get? field fields with
  | none => .fail documentPath (.missing field)
  | some (.string text) =>
    match Format.ofName? text with
    | some format => pure format
    | none => .fail field (.unknownFormat text)
  | some _ => .fail field (.notText field)

def readRoot (fields : Entries Value) : Reading Node :=
  match Entries.get? "root" fields with
  | some root => readNode .root root
  | none => .fail documentPath (.missing "root")

def readDocument : Value → Reading Document
  | .object fields =>
    Document.mk <$> readVersion fields <*> readFormat "inputFormat" fields
      <*> readFormat "outputFormat" fields <*> readIncludes "" fields <*> readFragments "" fields
      <*> readRoot fields
  | _ => .fail documentPath .documentNotObject

def readLibrary (owner : String) : Value → Reading Library
  | .object fields => Library.mk <$> readIncludes owner fields <*> readFragments owner fields
  | _ => .fail (owner ++ documentPath) .libraryNotObject

/-- The document that a text denotes, or all that is wrong with the text. -/
def Document.parse (text : String) : Except (List Diagnostic) Document :=
  match Json.read text with
  | .ok v => (readDocument v).result
  | .error fault => .error [(Fault.json fault).diagnostic documentPath]

/-- The library of the given name that a text denotes; the name and a colon stand in front of the
places of faults. -/
def Library.parse (name text : String) : Except (List Diagnostic) Library :=
  let owner := name ++ ":"
  match Json.read text with
  | .ok v => (readLibrary owner v).result
  | .error fault => .error [(Fault.json fault).diagnostic (owner ++ documentPath)]

/-! ## Names in a text -/

/-- The texts in the list of includes of a text, whether or not the text is a library. -/
def namesIn (text : String) : List String :=
  match Json.read text with
  | .ok v => (((v.get? "includes").bind Value.items?).getD []).filterMap Value.text?
  | .error _ => []

/-- A name that was read is in the text. -/
theorem text?_of_readInclude {path name : String} {v : Value}
    (h : (readInclude path v).value = some name) : v.text? = some name := by
  unfold readInclude at h
  split at h
  · split at h
    · simp [Reading.fail, Reading.rejected] at h
    · simpa [Value.text?] using h
  · simp [Reading.fail, Reading.rejected] at h

/-- What a library includes is named in its text. -/
theorem Library.includes_subset {owner text : String} {library : Library}
    (h : Library.parse owner text = .ok library) {name : String}
    (hn : name ∈ library.includes) : name ∈ namesIn text := by
  unfold Library.parse at h
  split at h
  case h_2 => simp at h
  case h_1 v hv =>
    have h := Reading.value_of_result h
    unfold readLibrary at h
    split at h
    case h_2 => simp [Reading.fail, Reading.rejected] at h
    case h_1 fields =>
      simp only [Reading.value_seq, Reading.value_map, Option.bind_eq_some_iff,
        Option.map_eq_some_iff] at h
      obtain ⟨_, ⟨includes, hi, rfl⟩, fragments, _, rfl⟩ := h
      unfold readIncludes at hi
      split at hi
      · simp only [Reading.value_pure, Option.some.injEq] at hi
        simp [← hi] at hn
      · rename_i items hitems
        obtain ⟨r, hr, hname⟩ := Reading.exists_of_mem_all hi hn
        simp only [List.mem_map, Prod.exists] at hr
        obtain ⟨item, i, hitem, rfl⟩ := hr
        have hmem : item ∈ items := List.fst_mem_of_mem_zipIdx hitem
        simp only [namesIn, hv, Value.get?, hitems, Option.bind_some, Value.items?,
          Option.getD_some, List.mem_filterMap]
        exact ⟨item, hmem, text?_of_readInclude hname⟩
      · simp [Reading.fail, Reading.rejected] at hi

end Remap.Rule
