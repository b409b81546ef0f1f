import Remap.Doctor.Report
import Remap.Proofs.Path.Repair
import Remap.Proofs.Plan.Lowering
import Remap.Proofs.Rule.Alike

/-!
# Fixes

A text is settled if it needs no fix (`Settled`). All that can be read is settled, so that rules
from which there is a plan are left alone where the plan comes from. The main statement is that
fixing settles a document in one pass (`fixText_fixText`).
-/

namespace Remap.Doctor

open Rule (Node)

namespace Fixed

variable {α β : Type}

@[simp] theorem value_pure (x : α) : (pure x : Fixed α).value = x := rfl

@[simp] theorem value_map (f : α → β) (x : Fixed α) : (f <$> x).value = f x.value := rfl

@[simp] theorem value_seq (f : Fixed (α → β)) (x : Fixed α) : (f <*> x).value = f.value x.value :=
  rfl

theorem eq_pure_iff {x : Fixed α} {a : α} : x = pure a ↔ x.fixes = [] ∧ x.value = a := by
  obtain ⟨value, fixes⟩ := x
  constructor
  · rintro ⟨⟩
    exact ⟨rfl, rfl⟩
  · rintro ⟨⟨⟩, ⟨⟩⟩
    rfl

theorem value_all (xs : List (Fixed α)) : (all xs).value = xs.map Fixed.value := by
  induction xs with
  | nil => rfl
  | cons x xs ih => rw [all, value_seq, ih]; rfl

theorem all_eq_pure {xs : List (Fixed α)} {ys : List α}
    (h : List.Forall₂ (fun x y => x = pure y) xs ys) : all xs = pure ys := by
  induction h with
  | nil => rfl
  | cons hx _ ih => rw [all, hx, ih]; rfl

end Fixed

/-! ## Settled texts -/

/-- A path into the input that needs no fix. -/
def SourceSettled (text : String) : Prop := Path.repair? text = none

/-- A path into the output that needs no fix. -/
def TargetSettled (text : String) : Prop := ∀ path, fixTarget path text = pure text

/-- A call that needs no fix. -/
def CallSettled (call : Rule.Call) : Prop := ∀ path, fixCall path call = pure call

/-- A field that needs no fix. -/
structure FieldSettled (f : Rule.Field) : Prop where
  source : ∀ text, f.source = .path text → SourceSettled text
  calls : ∀ call ∈ f.transforms, CallSettled call
  target : TargetSettled f.target

/-- The text that a node holds itself needs no fix. -/
def Settled : Node → Prop
  | .field f => FieldSettled f
  | .condition test _ _ => ∀ text ∈ test.sources, SourceSettled text
  | .merge _ _ target => TargetSettled target
  | .split source _ target => SourceSettled source ∧ TargetSettled target
  | .fragment _ | .sequence _ => True

theorem SourceSettled.of_parse {text : String} {p : SourcePath}
    (h : SourcePath.parse text = .ok p) : SourceSettled text := by
  simp only [SourceSettled, Path.repair?, h]

theorem TargetSettled.of_parse {text : String} {t : TargetPath}
    (h : TargetPath.parse text = .ok t) : TargetSettled text := by
  intro path
  simp only [fixTarget, h]

theorem CallSettled.of_ofName? {call : Rule.Call} {t : Transform}
    (h : Transform.ofName? call.name = some t) : CallSettled call := by
  intro path
  simp only [fixCall, h]

theorem ofName?_name (t : Transform) : Transform.ofName? t.name = some t := by
  cases t <;> decide

/-! ## What is settled stays as it is -/

theorem SourceSettled.fixSource_eq {text : String} (h : SourceSettled text) (path : String) :
    fixSource path text = pure text := by
  rw [SourceSettled] at h
  rw [fixSource, h]

theorem FieldSettled.fixField_eq {f : Rule.Field} (h : FieldSettled f) (path : String) :
    fixField path f = pure f := by
  have horigin : fixOrigin path f.source = pure f.source := by
    cases hsource : f.source with
    | constant value => rfl
    | path text => rw [fixOrigin, (h.source text hsource).fixSource_eq]; rfl
  have hcalls : Fixed.all (f.transforms.zipIdx.map fun e =>
      fixCall (path ++ ".transforms" ++ Rule.Step.indexText e.2) e.1) = pure f.transforms := by
    refine Fixed.all_eq_pure (List.forall₂_map_left_iff.mpr ?_)
    refine List.forall₂_iff_get.mpr ⟨List.length_zipIdx, fun i hi hi' => ?_⟩
    simp only [List.get_eq_getElem, List.getElem_zipIdx]
    exact h.calls _ (List.getElem_mem _) _
  rw [fixField, horigin, h.target path]
  exact congrArg (fun calls => _ <$> pure f.source <*> calls <*> pure f.target) hcalls

theorem fixConditions_eq {cs : List Condition}
    (h : ∀ c ∈ cs, ∀ path, fixCondition path c = pure c) (path : String) (i : Nat) :
    fixConditions path i cs = pure cs := by
  induction cs generalizing i with
  | nil => rfl
  | cons c cs ih =>
    rw [fixConditions, h c List.mem_cons_self, ih fun d hd => h d (List.mem_cons_of_mem _ hd)]
    rfl

theorem fixCondition_eq {c : Condition} (h : ∀ text ∈ c.sources, SourceSettled text)
    (path : String) : fixCondition path c = pure c := by
  have parts {cs : List Condition}
      (ih : ∀ c ∈ cs, (∀ text ∈ c.sources, SourceSettled text) → ∀ path,
        fixCondition path c = pure c)
      (h : ∀ text ∈ Condition.listSources cs, SourceSettled text) (path : String) :
      fixConditions path 0 cs = pure cs :=
    fixConditions_eq (fun c hc => ih c hc fun text htext =>
      h text (Condition.mem_listSources.mpr ⟨c, hc, htext⟩)) path 0
  induction c using Condition.induct generalizing path with
  | equals source | «exists» source | «matches» source | greaterThan source | lessThan source =>
    rw [fixCondition, (h source List.mem_cons_self).fixSource_eq]
    rfl
  | literal value => rfl
  | not c ih => rw [fixCondition, ih h]; rfl
  | and cs ih => rw [fixCondition, parts ih h]; rfl
  | or cs ih => rw [fixCondition, parts ih h]; rfl

theorem fixNodes_eq {ns : List Node} (h : ∀ n ∈ ns, ∀ place, fixNode place n = pure n)
    (place : Nat → Rule.Place) (i : Nat) : fixNodes place i ns = pure ns := by
  induction ns generalizing i with
  | nil => rfl
  | cons n ns ih =>
    rw [fixNodes, h n List.mem_cons_self, ih fun m hm => h m (List.mem_cons_of_mem _ hm)]
    rfl

/-- A tree of which every node is settled stays as it is. -/
theorem fixNode_eq {n : Node} (h : ∀ m ∈ n.nodes, Settled m) (place : Rule.Place) :
    fixNode place n = pure n := by
  have all {ns : List Node}
      (ih : ∀ n ∈ ns, (∀ m ∈ n.nodes, Settled m) → ∀ place, fixNode place n = pure n)
      (h : ∀ m ∈ Node.allNodes ns, Settled m) (place : Nat → Rule.Place) :
      fixNodes place 0 ns = pure ns :=
    fixNodes_eq (fun n hn => ih n hn fun m hm => h m (Node.mem_allNodes.mpr ⟨n, hn, hm⟩)) place 0
  induction n using Node.induct generalizing place with
  | field f =>
    have hf : FieldSettled f := h _ List.mem_cons_self
    rw [fixNode, hf.fixField_eq]
    rfl
  | fragment name => rfl
  | ifThen test yes ih =>
    rw [fixNode, fixCondition_eq (h _ List.mem_cons_self),
      ih fun m hm => h m (List.mem_cons_of_mem _ hm)]
    rfl
  | ifElse test yes no ihyes ihno =>
    rw [fixNode, fixCondition_eq (h _ List.mem_cons_self),
      ihyes fun m hm => h m (List.mem_cons_of_mem _ (List.mem_append_left _ hm)),
      ihno fun m hm => h m (List.mem_cons_of_mem _ (List.mem_append_right _ hm))]
    rfl
  | merge inputs policy target ih =>
    have htarget : TargetSettled target := h _ List.mem_cons_self
    rw [fixNode, all ih fun m hm => h m (List.mem_cons_of_mem _ hm), htarget]
    rfl
  | split source item target ih =>
    have hself : SourceSettled source ∧ TargetSettled target := h _ List.mem_cons_self
    rw [fixNode, hself.1.fixSource_eq, ih fun m hm => h m (List.mem_cons_of_mem _ hm), hself.2]
    rfl
  | sequence steps ih =>
    rw [fixNode, all ih fun m hm => h m (List.mem_cons_of_mem _ hm)]
    rfl

/-! ## What is fixed is settled -/

theorem sourceSettled_fixSource (path text : String) :
    SourceSettled (fixSource path text).value := by
  unfold fixSource
  split
  · next meant h => exact Path.repair?_of_repair? h
  · next h => exact h

theorem targetSettled_fixTarget (path text : String) :
    TargetSettled (fixTarget path text).value := by
  cases hparse : TargetPath.parse text with
  | ok t =>
    simp only [fixTarget, hparse]
    exact .of_parse hparse
  | error error =>
    cases hrepair : Path.repair? text with
    | none =>
      intro path
      simp only [fixTarget, hparse, hrepair, Fixed.value_pure]
    | some meant =>
      cases hmeant : TargetPath.parse meant with
      | ok t =>
        simp only [fixTarget, hparse, hrepair, hmeant]
        exact .of_parse hmeant
      | error error =>
        intro path
        simp only [fixTarget, hparse, hrepair, hmeant, Fixed.value_pure]

theorem callSettled_fixCall (path : String) (call : Rule.Call) :
    CallSettled (fixCall path call).value := by
  cases hname : Transform.ofName? call.name with
  | some t =>
    simp only [fixCall, hname]
    exact .of_ofName? hname
  | none =>
    cases hmeant : Transform.ofLooseName? call.name with
    | some t =>
      simp only [fixCall, hname, hmeant]
      exact .of_ofName? (ofName?_name t)
    | none =>
      intro path
      simp only [fixCall, hname, hmeant, Fixed.value_pure]

theorem fieldSettled_fixField (path : String) (f : Rule.Field) :
    FieldSettled (fixField path f).value := by
  refine ⟨fun text htext => ?_, fun call hcall => ?_, targetSettled_fixTarget _ _⟩
  · cases hsource : f.source with
    | constant value =>
      simp only [fixField, Fixed.value_seq, Fixed.value_map, hsource, fixOrigin] at htext
      cases htext
    | path given =>
      simp only [fixField, Fixed.value_seq, Fixed.value_map, hsource, fixOrigin] at htext
      cases htext
      exact sourceSettled_fixSource ..
  · simp only [fixField, Fixed.value_seq, Fixed.value_map, Fixed.value_all, List.map_map] at hcall
    obtain ⟨⟨given, i⟩, -, rfl⟩ := List.mem_map.mp hcall
    exact callSettled_fixCall _ _

theorem sourceSettled_fixCondition (path : String) (c : Condition) :
    ∀ text ∈ (fixCondition path c).value.sources, SourceSettled text := by
  have parts {cs : List Condition}
      (ih : ∀ c ∈ cs, ∀ path, ∀ text ∈ (fixCondition path c).value.sources, SourceSettled text)
      (path : String) (i : Nat) :
      ∀ text ∈ Condition.listSources (fixConditions path i cs).value, SourceSettled text := by
    induction cs generalizing i with
    | nil => exact fun text htext => absurd htext List.not_mem_nil
    | cons c cs ihcs =>
      intro text htext
      rcases List.mem_append.mp htext with htext | htext
      · exact ih c List.mem_cons_self _ text htext
      · exact ihcs (fun d hd => ih d (List.mem_cons_of_mem _ hd)) (i + 1) text htext
  induction c using Condition.induct generalizing path with
  | equals | «exists» | «matches» | greaterThan | lessThan =>
    intro text htext
    rw [List.mem_singleton.mp htext]
    exact sourceSettled_fixSource ..
  | literal value => exact fun text htext => absurd htext List.not_mem_nil
  | not c ih => exact ih _
  | and cs ih => exact parts ih path 0
  | or cs ih => exact parts ih path 0

/-- What becomes of a node itself where a tree is fixed. The nodes below it do not matter. -/
inductive Fixes : Node → Node → Prop
  | field (path : String) (f : Rule.Field) : Fixes (.field f) (.field (fixField path f).value)
  | condition (path : String) (test : Condition) {yes yes' : Node} {no no' : Option Node} :
    Fixes (.condition test yes no) (.condition (fixCondition path test).value yes' no')
  | merge (path target : String) {inputs inputs' : List Node} {policy : MergePolicy} :
    Fixes (.merge inputs policy target) (.merge inputs' policy (fixTarget path target).value)
  | split (path source target : String) {item item' : Node} :
    Fixes (.split source item target)
      (.split (fixSource path source).value item' (fixTarget path target).value)
  | fragment (name : String) : Fixes (.fragment name) (.fragment name)
  | sequence {steps steps' : List Node} : Fixes (.sequence steps) (.sequence steps')

theorem Fixes.settled {m m' : Node} (h : Fixes m m') : Settled m' := by
  cases h with
  | field path f => exact fieldSettled_fixField path f
  | condition path test => exact sourceSettled_fixCondition path test
  | merge path target => exact targetSettled_fixTarget path target
  | split path source target =>
    exact ⟨sourceSettled_fixSource path source, targetSettled_fixTarget path target⟩
  | fragment | sequence => trivial

theorem Fixes.fragment?_eq {m m' : Node} (h : Fixes m m') : m'.fragment? = m.fragment? := by
  cases h <;> rfl

/-- Fixing a tree fixes its nodes one by one. -/
theorem fixes_nodes (place : Rule.Place) (n : Node) :
    List.Forall₂ Fixes n.nodes (fixNode place n).value.nodes := by
  have all {ns : List Node}
      (ih : ∀ n ∈ ns, ∀ place, List.Forall₂ Fixes n.nodes (fixNode place n).value.nodes)
      (place : Nat → Rule.Place) (i : Nat) :
      List.Forall₂ Fixes (Node.allNodes ns) (Node.allNodes (fixNodes place i ns).value) := by
    induction ns generalizing i with
    | nil => exact .nil
    | cons n ns ihns =>
      exact List.rel_append (ih n List.mem_cons_self _)
        (ihns (fun m hm => ih m (List.mem_cons_of_mem _ hm)) (i + 1))
  induction n using Node.induct generalizing place with
  | field f => exact .cons (.field _ f) .nil
  | fragment name => exact .cons (.fragment name) .nil
  | ifThen test yes ih => exact .cons (.condition _ test) (ih _)
  | ifElse test yes no ihyes ihno =>
    exact .cons (.condition _ test) (List.rel_append (ihyes _) (ihno _))
  | merge inputs policy target ih => exact .cons (.merge _ target) (all ih _ 0)
  | split source item target ih => exact .cons (.split _ source target) (ih _)
  | sequence steps ih => exact .cons .sequence (all ih _ 0)

theorem settled_fixNode {place : Rule.Place} {n m : Node} (h : m ∈ (fixNode place n).value.nodes) :
    Settled m := by
  obtain ⟨_, -, hfixes⟩ := exists_of_mem_forall₂ (fixes_nodes place n).flip h
  exact hfixes.settled

theorem references_fixNode (place : Rule.Place) (n : Node) :
    (fixNode place n).value.references = n.references :=
  Node.references_eq_of_nodes ((fixes_nodes place n).imp fun _ _ h => h.fragment?_eq)

/-! ## Documents -/

/-- A document of which every node is settled, the nodes of its fragments included. -/
structure DocumentSettled (document : Rule.Document) : Prop where
  root : ∀ m ∈ document.root.nodes, Settled m
  fragments : ∀ entry ∈ document.fragments, ∀ m ∈ entry.2.nodes, Settled m

theorem DocumentSettled.fixText_eq {document : Rule.Document} (h : DocumentSettled document) :
    fixText document = pure document := by
  have hfragments : Fixed.all (document.fragments.map fun e =>
      (fun node => (e.1, node)) <$> fixNode (Rule.fragmentPlace "" e.1) e.2) =
        pure document.fragments := by
    refine Fixed.all_eq_pure (List.forall₂_map_left_iff.mpr (List.forall₂_same.mpr ?_))
    rintro ⟨name, node⟩ hentry
    simp only [fixNode_eq (h.fragments _ hentry)]
    rfl
  rw [fixText, fixNode_eq h.root]
  exact congrArg (fun fragments => _ <$> pure document.root <*> fragments) hfragments

theorem fragments_fixText (document : Rule.Document) :
    (fixText document).value.fragments = document.fragments.map fun (name, node) =>
      (name, (fixNode (Rule.fragmentPlace "" name) node).value) := by
  simp only [fixText, Fixed.value_seq, Fixed.value_map, Fixed.value_all, List.map_map]
  rfl

theorem documentSettled_fixText (document : Rule.Document) :
    DocumentSettled (fixText document).value := by
  refine ⟨fun m hm => settled_fixNode hm, fun entry hentry m hm => ?_⟩
  rw [fragments_fixText] at hentry
  obtain ⟨⟨name, node⟩, -, rfl⟩ := List.mem_map.mp hentry
  exact settled_fixNode hm

/-- A document that has been fixed needs no other fix. -/
theorem fixText_fixText (document : Rule.Document) :
    fixText (fixText document).value = pure (fixText document).value :=
  (documentSettled_fixText document).fixText_eq

/-! ## What can be read is settled -/

theorem exists_path_of_mem_sources {c : Condition} {p : Plan.Predicate}
    (h : Plan.ConditionLowers c p) {text : String} (htext : text ∈ c.sources) :
    ∃ path, SourcePath.parse text = .ok path := by
  have parts {cs : List Condition} {ps : List Plan.Predicate}
      (ih : ∀ c ∈ cs, ∀ {p}, Plan.ConditionLowers c p → text ∈ c.sources →
        ∃ path, SourcePath.parse text = .ok path)
      (hps : List.Forall₂ Plan.ConditionLowers cs ps) (htext : text ∈ Condition.listSources cs) :
      ∃ path, SourcePath.parse text = .ok path := by
    obtain ⟨c, hc, htext⟩ := Condition.mem_listSources.mp htext
    obtain ⟨p, -, hp⟩ := exists_of_mem_forall₂ hps hc
    exact ih c hc hp htext
  have lone {source : String} {path : SourcePath} (hp : SourcePath.parse source = .ok path)
      (htext : text ∈ [source]) : ∃ path, SourcePath.parse text = .ok path := by
    rw [List.mem_singleton.mp htext]
    exact ⟨path, hp⟩
  induction c using Condition.induct generalizing p with
  | literal value => exact absurd htext List.not_mem_nil
  | equals source value => cases h with | equals hp => exact lone hp htext
  | «exists» source => cases h with | «exists» hp => exact lone hp htext
  | «matches» source pattern => cases h with | «matches» hp _ => exact lone hp htext
  | greaterThan source value => cases h with | greaterThan hp => exact lone hp htext
  | lessThan source value => cases h with | lessThan hp => exact lone hp htext
  | not c ih => cases h with | not hp => exact ih hp htext
  | and cs ih => cases h with | and hps => exact parts ih hps htext
  | or cs ih => cases h with | or hps => exact parts ih hps htext

theorem settled_of_readable {n : Node} (h : Plan.Readable n) : Settled n := by
  cases n with
  | field f =>
    obtain ⟨g, hg⟩ := h
    refine ⟨fun text htext => ?_, fun call hcall => ?_, .of_parse hg.target⟩
    · have hsource : Plan.OriginLowers (.path text) g.source := htext ▸ hg.source
      generalize g.source = source at hsource
      cases hsource with
      | path hp => exact .of_parse hp
    · obtain ⟨op, -, t, ht, -⟩ := exists_of_mem_forall₂ hg.operations hcall
      exact .of_ofName? ht
  | condition test yes no =>
    obtain ⟨p, hp⟩ := h
    intro text htext
    obtain ⟨path, hpath⟩ := exists_path_of_mem_sources hp htext
    exact .of_parse hpath
  | merge inputs policy target =>
    obtain ⟨t, ht⟩ := h
    exact .of_parse ht
  | split source item target =>
    obtain ⟨⟨s, hs⟩, t, ht⟩ := h
    exact ⟨.of_parse hs, .of_parse ht⟩
  | fragment name => trivial
  | sequence steps => trivial

end Remap.Doctor
