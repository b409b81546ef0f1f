import Remap.Compatibility.Report
import Remap.Proofs.Lists
import Remap.Proofs.Rule.Constants

/-!
# The verdict on compatibility

The constructs that a document uses are first told apart from the walk that gathers them: a tree
uses a construct if one of its nodes does, and a condition uses the operators at every depth. What
is found about a document is then split by feature. One lemma says all that can be found about a
single feature (`assess_cases`), and every property of the reasons is read off it.
-/

namespace Remap.Compatibility

open Rule (Document Node)

/-! ## What a document uses -/

/-- A condition has an operator, at some depth. -/
inductive Operates : Condition → String → Prop where
  | self (c : Condition) : Operates c c.op
  | and {cs : List Condition} {c : Condition} {op : String} :
      c ∈ cs → Operates c op → Operates (.and cs) op
  | or {cs : List Condition} {c : Condition} {op : String} :
      c ∈ cs → Operates c op → Operates (.or cs) op
  | not {c : Condition} {op : String} : Operates c op → Operates (.not c) op

/-- A node uses a construct, apart from the nodes below it. -/
inductive NodeUses : Node → Construct → Prop where
  | kind (node : Node) : NodeUses node ⟨.nodeKind, node.kind⟩
  | policy {inputs : List Node} {policy : MergePolicy} {target : String} :
      NodeUses (.merge inputs policy target) ⟨.mergePolicy, policy.name⟩
  | operator {test : Condition} {yes : Node} {no : Option Node} {op : String} :
      Operates test op → NodeUses (.condition test yes no) ⟨.conditionOp, op⟩
  | transform {f : Rule.Field} {call : Rule.Call} :
      call ∈ f.transforms → NodeUses (.field f) ⟨.transform, call.name⟩

/-- The root of a document and its own fragments. -/
def trees (document : Document) : List Node := document.root :: document.fragments.map (·.2)

/-- A document uses a construct in its root or in a fragment of its own. -/
def Uses (document : Document) (construct : Construct) : Prop :=
  ∃ tree ∈ trees document, ∃ node ∈ tree.nodes, NodeUses node construct

mutual

/-- The constructs that a tree uses, from the top down. -/
def uses : Node → List Construct
  | .field f => ⟨.nodeKind, "field"⟩ :: f.transforms.map fun call => ⟨.transform, call.name⟩
  | .fragment _ => [⟨.nodeKind, "fragment"⟩]
  | .condition test yes none =>
    ⟨.nodeKind, "condition"⟩ :: ((conditionOps test).map (⟨.conditionOp, ·⟩) ++ uses yes)
  | .condition test yes (some no) =>
    ⟨.nodeKind, "condition"⟩ ::
      ((conditionOps test).map (⟨.conditionOp, ·⟩) ++ (uses yes ++ uses no))
  | .merge inputs policy _ =>
    ⟨.nodeKind, "merge"⟩ :: ⟨.mergePolicy, policy.name⟩ :: allUses inputs
  | .split _ item _ => ⟨.nodeKind, "split"⟩ :: uses item
  | .sequence steps => ⟨.nodeKind, "sequence"⟩ :: allUses steps

/-- The constructs that the trees of a list use. -/
def allUses : List Node → List Construct
  | [] => []
  | n :: ns => uses n ++ allUses ns

end

variable {document : Document} {construct : Construct} {f : Feature} {declared : Option Version}
  {target : Version}

theorem flatMap_nodes (n : Node) : n.nodes.flatMap nodeConstructs = uses n := by
  have all {ns : List Node} (h : ∀ n ∈ ns, n.nodes.flatMap nodeConstructs = uses n) :
      (Node.allNodes ns).flatMap nodeConstructs = allUses ns := by
    induction ns with
    | nil => rfl
    | cons n ns ih =>
      rw [Node.allNodes, List.flatMap_append, allUses, h n List.mem_cons_self,
        ih fun m hm => h m (List.mem_cons_of_mem _ hm)]
  induction n using Node.induct with
  | field f => exact List.append_nil _
  | fragment name => rfl
  | ifThen test yes ih =>
    rw [Node.nodes, List.flatMap_cons, ih]
    rfl
  | ifElse test yes no ihyes ihno =>
    rw [Node.nodes, List.flatMap_cons, List.flatMap_append, ihyes, ihno]
    rfl
  | merge inputs policy target ih =>
    rw [Node.nodes, List.flatMap_cons, all ih]
    rfl
  | split source item target ih =>
    rw [Node.nodes, List.flatMap_cons, ih]
    rfl
  | sequence steps ih =>
    rw [Node.nodes, List.flatMap_cons, all ih]
    rfl

theorem constructs_eq (document : Document) :
    constructs document = (trees document).flatMap uses := by
  refine List.flatMap_congr fun tree _ => ?_
  have hnodes : (tree.visits .root).map (·.node) = tree.nodes := by
    rw [← Node.map_placed tree .root 0, Node.visits, List.map_map,
      ← List.zipIdx_map_fst 0 (Node.placed .root 0 tree), List.map_map, List.zipIdx_map_fst]
    rfl
  rw [← flatMap_nodes, ← hnodes, List.flatMap_map]

theorem mem_conditionOps_iff {c : Condition} {op : String} :
    op ∈ conditionOps c ↔ Operates c op := by
  have all {cs : List Condition} (h : ∀ c ∈ cs, op ∈ conditionOps c ↔ Operates c op) :
      op ∈ allConditionOps cs ↔ ∃ c ∈ cs, Operates c op := by
    induction cs with
    | nil => simp [allConditionOps]
    | cons c cs ih =>
      rw [allConditionOps, List.mem_append, h c List.mem_cons_self,
        ih fun c hc => h c (List.mem_cons_of_mem _ hc)]
      simp
  induction c using Condition.induct with
  | equals source value | «exists» source | «matches» source text | literal value
  | greaterThan source value | lessThan source value =>
    rw [conditionOps, List.mem_singleton]
    constructor
    · rintro rfl
      exact .self _
    · rintro ⟨⟩
      rfl
  | and cs ih =>
    rw [conditionOps, List.mem_cons, all ih]
    constructor
    · rintro (rfl | ⟨c, hc, hop⟩)
      · exact .self _
      · exact .and hc hop
    · intro h
      cases h with
      | self => exact .inl rfl
      | and hc hop => exact .inr ⟨_, hc, hop⟩
  | or cs ih =>
    rw [conditionOps, List.mem_cons, all ih]
    constructor
    · rintro (rfl | ⟨c, hc, hop⟩)
      · exact .self _
      · exact .or hc hop
    · intro h
      cases h with
      | self => exact .inl rfl
      | or hc hop => exact .inr ⟨_, hc, hop⟩
  | not c ih =>
    rw [conditionOps, List.mem_cons]
    refine (or_congr_right ih).trans ?_
    constructor
    · rintro (rfl | hop)
      · exact .self _
      · exact .not hop
    · intro h
      cases h with
      | self => exact .inl rfl
      | not hop => exact .inr hop

theorem mem_nodeConstructs_iff {node : Node} :
    construct ∈ nodeConstructs node ↔ NodeUses node construct := by
  constructor
  · intro h
    rcases List.mem_cons.mp h with rfl | h
    · exact .kind node
    · cases node with
      | field f =>
        obtain ⟨call, hcall, rfl⟩ := List.mem_map.mp h
        exact .transform hcall
      | condition test yes no =>
        obtain ⟨op, hop, rfl⟩ := List.mem_map.mp h
        exact .operator (mem_conditionOps_iff.mp hop)
      | merge inputs policy target =>
        rw [List.mem_singleton.mp h]
        exact .policy
      | split | fragment | sequence => cases h
  · intro h
    cases h with
    | kind => exact List.mem_cons_self
    | policy => exact List.mem_cons_of_mem _ (List.mem_singleton_self _)
    | operator hop =>
      exact List.mem_cons_of_mem _ (List.mem_map.mpr ⟨_, mem_conditionOps_iff.mpr hop, rfl⟩)
    | transform hcall => exact List.mem_cons_of_mem _ (List.mem_map.mpr ⟨_, hcall, rfl⟩)

theorem mem_constructs_iff : construct ∈ constructs document ↔ Uses document construct := by
  simp only [constructs_eq, ← flatMap_nodes, List.mem_flatMap, mem_nodeConstructs_iff, Uses]

/-! ## Features -/

theorem nodup_features : (Feature.all.map (·.construct)).Nodup := by decide

theorem of?_eq_some_iff : Feature.of? construct = some f ↔
    f ∈ Feature.all ∧ f.construct = construct := by
  have hfound {g : Feature} (h : Feature.of? construct = some g) :
      g ∈ Feature.all ∧ g.construct = construct :=
    ⟨List.mem_of_find?_eq_some h, by simpa using List.find?_some h⟩
  refine ⟨hfound, fun ⟨hmem, hconstruct⟩ => ?_⟩
  cases h : Feature.of? construct with
  | none => exact absurd hconstruct (by simpa using List.find?_eq_none.mp h f hmem)
  | some g =>
    obtain ⟨hg, heq⟩ := hfound h
    have heq := heq.trans hconstruct.symm
    exact congrArg some (List.inj_on_of_nodup_map nodup_features hg hmem heq)

/-! ## Reasons -/

/-- The construct that a reason is about, if it is not about a version. -/
def Reason.construct? : Reason → Option Construct
  | .targetMajor _ | .schemaVersion .. => none
  | .notYetIntroduced construct _ | .removed construct _ | .deprecated construct _
  | .behaviorChange construct _ _ => some construct

/-- What there is to be known about a feature: whether it is there yet, where it stands, and whether
it means something else. -/
theorem assess_cases (f : Feature) (declared : Option Version) (target : Version) :
    ∃ introduced standing changed, assess f declared target = introduced ++ standing ++ changed ∧
      (introduced = [] ∧ f.introduced.le target = true ∨
        introduced = [.notYetIntroduced f.construct f.introduced] ∧
          f.introduced.le target = false) ∧
      ((∃ version, standing = [.removed f.construct version] ∧ f.removed = some version ∧
          version.le target = true) ∨
        (standing = [] ∨ ∃ version, standing = [.deprecated f.construct version]) ∧
          ∀ version, f.removed = some version → version.le target = false) ∧
      (changed = [] ∨ ∃ version what, changed = [.behaviorChange f.construct version what]) := by
  refine ⟨_, _, _, rfl, ?_, ?_, ?_⟩
  · rw [isLater]
    cases f.introduced.le target with
    | true => exact .inl ⟨rfl, rfl⟩
    | false => exact .inr ⟨rfl, rfl⟩
  · have hkept (h : f.removed.filter (·.le target) = none) (version : Version)
        (hversion : f.removed = some version) : version.le target = false := by
      simpa using Option.filter_eq_none_iff.mp h version hversion
    split
    · next version hremoved =>
      obtain ⟨hversion, hle⟩ := Option.filter_eq_some_iff.mp hremoved
      exact .inl ⟨version, rfl, hversion, hle⟩
    · next version hremoved _ => exact .inr ⟨.inr ⟨version, rfl⟩, hkept hremoved⟩
    · next hremoved _ => exact .inr ⟨.inl rfl, hkept hremoved⟩
  · cases f.changed with
    | none => exact .inl rfl
    | some change =>
      cases declared with
      | none => exact .inl rfl
      | some declared =>
        simp only
        split <;> split <;> first | exact .inl rfl | exact .inr ⟨_, _, rfl⟩

theorem construct?_of_mem_assess {r : Reason} (hr : r ∈ assess f declared target) :
    r.construct? = some f.construct ∧ r.about = f.construct.text := by
  obtain ⟨introduced, standing, changed, heq, hintroduced, hstanding, hchanged⟩ :=
    assess_cases f declared target
  rw [heq] at hr
  rcases List.mem_append.mp hr with hr | hr
  · rcases List.mem_append.mp hr with hr | hr
    · obtain ⟨rfl, -⟩ | ⟨rfl, -⟩ := hintroduced
      · cases hr
      · rw [List.mem_singleton.mp hr]
        exact ⟨rfl, rfl⟩
    · obtain ⟨version, rfl, -⟩ | ⟨rfl | ⟨version, rfl⟩, -⟩ := hstanding
      · rw [List.mem_singleton.mp hr]
        exact ⟨rfl, rfl⟩
      · cases hr
      · rw [List.mem_singleton.mp hr]
        exact ⟨rfl, rfl⟩
  · obtain rfl | ⟨version, what, rfl⟩ := hchanged
    · cases hr
    · rw [List.mem_singleton.mp hr]
      exact ⟨rfl, rfl⟩

/-- What is to be known about a feature is of different kinds. -/
theorem nodup_assess : ((assess f declared target).map (·.kindName)).Nodup := by
  obtain ⟨introduced, standing, changed, heq, hintroduced, hstanding, hchanged⟩ :=
    assess_cases f declared target
  rw [heq]
  obtain ⟨rfl, -⟩ | ⟨rfl, -⟩ := hintroduced <;>
  obtain ⟨version, rfl, -⟩ | ⟨rfl | ⟨version, rfl⟩, -⟩ := hstanding <;>
  obtain rfl | ⟨changed, what, rfl⟩ := hchanged <;>
  simp [Reason.kindName]

theorem exists_isBreaking_assess_iff : (∃ r ∈ assess f declared target, r.isBreaking = true) ↔
    f.introduced.le target = false ∨
      ∃ version, f.removed = some version ∧ version.le target = true := by
  obtain ⟨introduced, standing, changed, heq, hintroduced, hstanding, hchanged⟩ :=
    assess_cases f declared target
  have hchanged : ¬∃ r ∈ changed, r.isBreaking = true := by
    obtain rfl | ⟨version, what, rfl⟩ := hchanged <;> simp [Reason.isBreaking]
  have hintroduced : (∃ r ∈ introduced, r.isBreaking = true) ↔ f.introduced.le target = false := by
    obtain ⟨rfl, hle⟩ | ⟨rfl, hle⟩ := hintroduced <;> simp [Reason.isBreaking, hle]
  have hstanding : (∃ r ∈ standing, r.isBreaking = true) ↔
      ∃ version, f.removed = some version ∧ version.le target = true := by
    obtain ⟨version, rfl, hremoved, hle⟩ | ⟨hstanding, hkept⟩ := hstanding
    · simp [Reason.isBreaking, hremoved, hle]
    · refine iff_of_false ?_ ?_
      · obtain rfl | ⟨version, rfl⟩ := hstanding <;> simp [Reason.isBreaking]
      · rintro ⟨version, hremoved, hle⟩
        rw [hkept version hremoved] at hle
        cases hle
  simp only [heq, List.mem_append, or_and_right, exists_or, hintroduced, hstanding, hchanged,
    or_false]

/-- Constructs are told apart by their texts. -/
theorem Construct.text_inj {a b : Construct} (h : a.text = b.text) : a = b := by
  obtain ⟨category, name⟩ := a
  obtain ⟨category', name'⟩ := b
  have hlist := congrArg String.toList h
  simp only [text, String.toList_append] at hlist
  -- The labels differ in their first letters.
  have hcategory : category = category' := by
    cases category <;> cases category' <;> first | rfl | cases List.head_eq_of_cons_eq hlist
  subst hcategory
  have hname : name = name' := by
    simpa [String.toList_inj] using hlist
  rw [hname]

/-! ## The verdict -/

theorem Reason.kindName_ne {r s : Reason} {construct : Construct} (hr : r.construct? = none)
    (hs : s.construct? = some construct) : r.kindName ≠ s.kindName := by
  cases r <;> cases hr <;> cases s <;> cases hs <;> exact ne_of_beq_false rfl

/-- The features of a document, in the order of their first uses. -/
def features (document : Document) : List Feature :=
  (constructs document).eraseDups.filterMap Feature.of?

theorem mem_features_iff :
    f ∈ features document ↔ f ∈ Feature.all ∧ Uses document f.construct := by
  simp only [features, List.mem_filterMap, List.mem_eraseDups, mem_constructs_iff, of?_eq_some_iff]
  constructor
  · rintro ⟨construct, huses, hmem, rfl⟩
    exact ⟨hmem, huses⟩
  · rintro ⟨hmem, huses⟩
    exact ⟨_, huses, hmem, rfl⟩

theorem pairwise_features (document : Document) : (features document).Pairwise fun f g =>
    (constructs document).idxOf f.construct < (constructs document).idxOf g.construct := by
  refine List.pairwise_filterMap.mpr ((pairwise_idxOf_eraseDups _).imp fun hlt f hf g hg => ?_)
  rw [(of?_eq_some_iff.mp hf).2, (of?_eq_some_iff.mp hg).2]
  exact hlt

/-- What is to be known about versions comes first. -/
theorem reasons_eq {version : Version}
    (hversion : Version.parse document.schemaVersion = .ok version) (target : Version) :
    ∃ versions, reasons document target =
        versions ++ (features document).flatMap (assess · (some version) target) ∧
      (∀ r ∈ versions, r.construct? = none) ∧ (versions.map (·.kindName)).Nodup ∧
      ((¬∃ r ∈ versions, r.isBreaking = true) ↔
        target.major ≤ Version.newest.major ∧ version.le target = true) := by
  refine ⟨(if Version.newest.major < target.major then [.targetMajor target] else []) ++
    if isLater version target then [.schemaVersion version target] else [], ?_, ?_⟩
  · rw [reasons, hversion]
    rfl
  · rw [← Nat.not_lt, isLater]
    by_cases hmajor : Version.newest.major < target.major <;> cases version.le target <;>
      simp [hmajor, Reason.construct?, Reason.kindName, Reason.isBreaking]

theorem isCompatible_iff {rs : List Reason} :
    isCompatible rs = true ↔ ¬∃ r ∈ rs, r.isBreaking = true := by
  rw [isCompatible, Bool.not_eq_true', ← Bool.not_eq_true, List.any_eq_true]

section

variable {version : Version} (hversion : Version.parse document.schemaVersion = .ok version)
include hversion

theorem isCompatible_reasons_iff : isCompatible (reasons document target) = true ↔
    target.major ≤ Version.newest.major ∧ version.le target = true ∧
      ∀ construct, Uses document construct → ∀ f ∈ Feature.all, f.construct = construct →
        f.introduced.le target = true ∧
          ∀ removed, f.removed = some removed → removed.le target = false := by
  obtain ⟨versions, heq, -, -, hbreaking⟩ := reasons_eq hversion target
  have hfeatures : (∃ r ∈ (features document).flatMap (assess · (some version) target),
      r.isBreaking = true) ↔ ∃ f ∈ features document, f.introduced.le target = false ∨
        ∃ removed, f.removed = some removed ∧ removed.le target = true := by
    constructor
    · rintro ⟨r, hr, hbreaking⟩
      obtain ⟨f, hf, hr⟩ := List.mem_flatMap.mp hr
      exact ⟨f, hf, exists_isBreaking_assess_iff.mp ⟨r, hr, hbreaking⟩⟩
    · rintro ⟨f, hf, h⟩
      obtain ⟨r, hr, hbreaking⟩ := exists_isBreaking_assess_iff.mpr h
      exact ⟨r, List.mem_flatMap.mpr ⟨f, hf, hr⟩, hbreaking⟩
  rw [isCompatible_iff, heq]
  simp only [List.mem_append, or_and_right, exists_or]
  rw [not_or, hbreaking, hfeatures, and_assoc]
  refine and_congr_right fun _ => and_congr_right fun _ => ?_
  simp only [not_exists, not_and, not_or, mem_features_iff, Bool.not_eq_false, Bool.not_eq_true]
  exact ⟨fun h construct huses f hf hconstruct => h f ⟨hf, hconstruct ▸ huses⟩,
    fun h f ⟨hf, huses⟩ => h f.construct huses f hf rfl⟩

/-- No two reasons are of one kind and about the same. -/
theorem nodup_reasons : ((reasons document target).map fun r => (r.kindName, r.about)).Nodup := by
  obtain ⟨versions, heq, hnone, hkinds, -⟩ := reasons_eq hversion target
  have hapart {r s : Reason} (h : r.kindName ≠ s.kindName) :
      (r.kindName, r.about) ≠ (s.kindName, s.about) := fun heq => h (congrArg Prod.fst heq)
  rw [List.Nodup, List.pairwise_map, heq, List.pairwise_append, List.pairwise_flatMap]
  refine ⟨(List.pairwise_map.mp hkinds).imp hapart, ⟨fun f _ => ?_, ?_⟩, fun r hr s hs => ?_⟩
  · exact (List.pairwise_map.mp nodup_assess).imp hapart
  · refine (pairwise_features document).imp fun hlt r hr s hs hsame => ?_
    have habout := congrArg Prod.snd hsame
    simp only [(construct?_of_mem_assess hr).2, (construct?_of_mem_assess hs).2] at habout
    rw [Construct.text_inj habout] at hlt
    exact Nat.lt_irrefl _ hlt
  · obtain ⟨f, -, hs⟩ := List.mem_flatMap.mp hs
    exact hapart (Reason.kindName_ne (hnone r hr) (construct?_of_mem_assess hs).1)

theorem uses_of_mem_reasons {r : Reason} (hr : r ∈ reasons document target)
    (hconstruct : r.construct? = some construct) : Uses document construct := by
  obtain ⟨versions, heq, hnone, -⟩ := reasons_eq hversion target
  rw [heq] at hr
  rcases List.mem_append.mp hr with hr | hr
  · rw [hnone r hr] at hconstruct
    cases hconstruct
  · obtain ⟨f, hf, hr⟩ := List.mem_flatMap.mp hr
    rw [(construct?_of_mem_assess hr).1] at hconstruct
    cases hconstruct
    exact (mem_features_iff.mp hf).2

/-- Reasons stand in the order of the first uses of the constructs that they are about. -/
theorem pairwise_reasons : ((reasons document target).filterMap Reason.construct?).Pairwise
    fun a b => (constructs document).idxOf a ≤ (constructs document).idxOf b := by
  obtain ⟨versions, heq, hnone, -⟩ := reasons_eq hversion target
  rw [List.pairwise_filterMap, heq, List.pairwise_append, List.pairwise_flatMap]
  refine ⟨?_, ⟨fun f _ => ?_, ?_⟩, fun r hr s hs a ha => ?_⟩
  · refine List.pairwise_of_forall_mem_list fun r hr s hs a ha => ?_
    rw [hnone r hr] at ha
    cases ha
  · refine List.pairwise_of_forall_mem_list fun r hr s hs a ha b hb => ?_
    rw [(construct?_of_mem_assess hr).1] at ha
    rw [(construct?_of_mem_assess hs).1] at hb
    cases ha
    cases hb
    exact Nat.le_refl _
  · refine (pairwise_features document).imp fun hlt r hr s hs a ha b hb => ?_
    rw [(construct?_of_mem_assess hr).1] at ha
    rw [(construct?_of_mem_assess hs).1] at hb
    cases ha
    cases hb
    exact Nat.le_of_lt hlt
  · rw [hnone r hr] at ha
    cases ha

end

/-- A document that was read is compatible with a target just if the target is of no later major
version than is known, the document declares no later version, and every construct that the document
uses is there in the target, as far as its history is known. No two reasons are of one kind and
about the same, and those about constructs are about constructs that are used, in the order of their
first uses. -/
theorem reasons_verdict {text : String} (hparse : Document.parse text = .ok document)
    (target : Version) :
    ∃ declared, Version.parse document.schemaVersion = .ok declared ∧
      (isCompatible (reasons document target) = true ↔
        target.major ≤ Version.newest.major ∧ declared.le target = true ∧
          ∀ construct, Uses document construct → ∀ f ∈ Feature.all, f.construct = construct →
            f.introduced.le target = true ∧
              ∀ removed, f.removed = some removed → removed.le target = false) ∧
      ((reasons document target).map fun r => (r.kindName, r.about)).Nodup ∧
      (∀ construct ∈ (reasons document target).filterMap Reason.construct?,
        Uses document construct) ∧
      ((reasons document target).filterMap Reason.construct?).Pairwise fun a b =>
        ((trees document).flatMap uses).idxOf a ≤ ((trees document).flatMap uses).idxOf b := by
  obtain ⟨declared, hdeclared, -⟩ := (Document.declared_of_parse hparse).version
  refine ⟨declared, hdeclared, isCompatible_reasons_iff hdeclared, nodup_reasons hdeclared,
    fun construct hconstruct => ?_, constructs_eq document ▸ pairwise_reasons hdeclared⟩
  obtain ⟨r, hr, hr'⟩ := List.mem_filterMap.mp hconstruct
  exact uses_of_mem_reasons hdeclared hr hr'

/-- Rules with a transform that is gone since the version 1.2. -/
def capitalized : Document :=
  ⟨"1.0", .json, .json, [], [],
    .merge [.field ⟨.path "a", [⟨"trim", []⟩, ⟨"capitalize", []⟩], "b", false⟩] .firstWins ""⟩

/-- The text of these rules. -/
def capitalizedText : String :=
  "\x7b\"schemaVersion\":\"1.0\",\"inputFormat\":\"json\",\"outputFormat\":\"json\","
    ++ "\"root\":\x7b\"kind\":\"merge\",\"inputs\":[\x7b\"kind\":\"field\",\"source\":\"a\","
    ++ "\"transforms\":[\"trim\",\"capitalize\"],\"target\":\"b\"\x7d],"
    ++ "\"policy\":\"firstWins\"\x7d\x7d"

set_option maxRecDepth 2000 in
theorem parse_capitalizedText : Document.parse capitalizedText = .ok capitalized := by cbv

theorem uses_capitalized : Uses capitalized ⟨.transform, "capitalize"⟩ :=
  mem_constructs_iff.mp (by decide)

/-- The rules are not compatible with the version 1.2, but with the version before it. -/
theorem reasons_verdict_capitalized : Document.parse capitalizedText = .ok capitalized ∧
    isCompatible (reasons capitalized ⟨1, 2⟩) = false ∧
    isCompatible (reasons capitalized ⟨1, 1⟩) = true := by
  refine ⟨parse_capitalizedText, ?_, by cbv⟩
  obtain ⟨declared, -, hverdict, -⟩ := reasons_verdict parse_capitalizedText ⟨1, 2⟩
  rw [← Bool.not_eq_true, hverdict]
  rintro ⟨-, -, hused⟩
  obtain ⟨f, hf, hremoved⟩ : ∃ f, Feature.of? ⟨.transform, "capitalize"⟩ = some f ∧
      f.removed = some ⟨1, 2⟩ := ⟨_, rfl, rfl⟩
  obtain ⟨hmem, hconstruct⟩ := of?_eq_some_iff.mp hf
  cases (hused _ uses_capitalized f hmem hconstruct).2 _ hremoved

end Remap.Compatibility
