import Mathlib
import Remap.Proofs.Doctor.Insertion
import Remap.Proofs.Run.Failures

/-!
# Fixes preserve what works

Static fixes leave alone what a plan comes from, and conversions change nothing where there was no
error. The main statement is that what a plan does without errors is also done by the plan of the
fixed rules, whatever the sample (`examineDocument_preserves`).
-/

namespace Remap.Doctor

open Rule (Node)

/-! ## Static fixes -/

/-- A tree of which the expansion comes down to a plan tree is settled, and so is all that it
reaches. -/
theorem settled_of_expands {defines defines' : String → Node → Prop}
    (hdefines : ∀ name node, defines name node → (∀ m ∈ node.nodes, Settled m) → defines' name node)
    {n e : Node} (h : Fragment.Expands defines n e) {p : Plan.Node} (hp : Plan.Lowers e p) :
    (∀ m ∈ n.nodes, Settled m) ∧ Fragment.Expands defines' n e := by
  have all {ns es : List Node} {ps : List Plan.Node}
      (ih : List.Forall₂ (fun n e => ∀ p, Plan.Lowers e p →
        (∀ m ∈ n.nodes, Settled m) ∧ Fragment.Expands defines' n e) ns es)
      (hps : List.Forall₂ Plan.Lowers es ps) :
      (∀ m ∈ Node.allNodes ns, Settled m) ∧ List.Forall₂ (Fragment.Expands defines') ns es := by
    induction ih generalizing ps with
    | nil => exact ⟨fun m hm => absurd hm List.not_mem_nil, .nil⟩
    | cons hn _ ihns =>
      cases hps with
      | cons hfirst hrest =>
        obtain ⟨hsettled, hexpands⟩ := hn _ hfirst
        obtain ⟨hsettled', hexpands'⟩ := ihns hrest
        refine ⟨fun m hm => ?_, .cons hexpands hexpands'⟩
        rcases List.mem_append.mp hm with hm | hm
        · exact hsettled m hm
        · exact hsettled' m hm
  -- What a fragment brings in is settled where the fragment is defined, which keeps its definition.
  refine h.induct (motive := fun n e => ∀ p, Plan.Lowers e p →
    (∀ m ∈ n.nodes, Settled m) ∧ Fragment.Expands defines' n e) ?field ?ifThen ?ifElse ?merge ?split
    ?fragment ?sequence p hp
  case field =>
    intro f p hp
    cases hp with
    | field hg =>
      exact ⟨List.forall_mem_singleton.mpr (settled_of_readable ⟨_, hg⟩), .field⟩
  case ifThen =>
    intro test yes yes' ih p hp
    cases hp with
    | ifThen htest hyes =>
      obtain ⟨hsettled, hexpands⟩ := ih _ hyes
      have hself : Settled (.condition test yes none) := settled_of_readable ⟨_, htest⟩
      exact ⟨List.forall_mem_cons.mpr ⟨hself, hsettled⟩, .ifThen hexpands⟩
  case ifElse =>
    intro test yes no yes' no' ihyes ihno p hp
    cases hp with
    | ifElse htest hyes hno =>
      obtain ⟨hsettled, hexpands⟩ := ihyes _ hyes
      obtain ⟨hsettled', hexpands'⟩ := ihno _ hno
      have hself : Settled (.condition test yes (some no)) := settled_of_readable ⟨_, htest⟩
      refine ⟨List.forall_mem_cons.mpr ⟨hself, fun m hm => ?_⟩, .ifElse hexpands hexpands'⟩
      rcases List.mem_append.mp hm with hm | hm
      · exact hsettled m hm
      · exact hsettled' m hm
  case merge =>
    intro inputs inputs' policy target ih p hp
    cases hp with
    | merge htarget hinputs =>
      obtain ⟨hsettled, hexpands⟩ := all ih hinputs
      have hself : Settled (.merge inputs policy target) := settled_of_readable ⟨_, htarget⟩
      exact ⟨List.forall_mem_cons.mpr ⟨hself, hsettled⟩, .merge hexpands⟩
  case split =>
    intro source item item' target ih p hp
    cases hp with
    | split hsource htarget hitem =>
      obtain ⟨hsettled, hexpands⟩ := ih _ hitem
      have hself : Settled (.split source item target) :=
        settled_of_readable ⟨⟨_, hsource⟩, _, htarget⟩
      exact ⟨List.forall_mem_cons.mpr ⟨hself, hsettled⟩, .split hexpands⟩
  case fragment =>
    intro name node expanded hname _ ih p hp
    obtain ⟨hsettled, hexpands⟩ := ih p hp
    have hname' := hdefines name node hname hsettled
    exact ⟨List.forall_mem_singleton.mpr trivial, .fragment hname' hexpands⟩
  case sequence =>
    intro steps steps' ih p hp
    cases hp with
    | sequence hsteps =>
      obtain ⟨hsettled, hexpands⟩ := all ih hsteps
      exact ⟨List.forall_mem_cons.mpr ⟨trivial, hsettled⟩, .sequence hexpands⟩

theorem sameReferences_fixText (document : Rule.Document) :
    Fragment.SameReferences document (fixText document).value := by
  refine ⟨rfl, ?_, references_fixNode .root document.root⟩
  rw [fragments_fixText]
  refine List.forall₂_map_right_iff.mpr (List.forall₂_same.mpr fun entry _ => ⟨rfl, ?_⟩)
  exact references_fixNode ..

/-- Static fixes leave the plan of a document as it is, and its root too. -/
theorem compile_fixText {source : Fragment.Source} {document : Rule.Document} {plan : Plan}
    (hplan : Plan.compile source document = .ok plan) :
    (fixText document).value.root = document.root ∧
      Plan.compile source (fixText document).value = .ok plan := by
  obtain ⟨hwell, e, p, hexpands, hresolved, hlowers, rfl⟩ := Plan.compile_eq_ok_iff_expands.mp hplan
  have hsame := sameReferences_fixText document
  have hdefines : ∀ name node, Fragment.Defines source document name node →
      (∀ m ∈ node.nodes, Settled m) →
      Fragment.Defines source (fixText document).value name node := by
    intro name node hname hsettled
    cases hname with
    | library hreach hloads hmem => exact .library (hsame.reachable hreach) hloads hmem
    | own hmem =>
      refine .own ?_
      rw [fragments_fixText]
      refine List.mem_map.mpr ⟨(name, node), hmem, ?_⟩
      simp only [fixNode_eq hsettled, Fixed.value_pure]
  obtain ⟨hsettled, hexpands'⟩ := settled_of_expands hdefines hexpands hlowers
  have hroot : (fixText document).value.root = document.root :=
    congrArg Fixed.value (fixNode_eq hsettled .root)
  refine ⟨hroot, Plan.compile_eq_ok_iff_expands.mpr ?_⟩
  refine ⟨hsame.wellFormed hwell, e, p, ?_, ?_, hlowers, rfl⟩
  · rw [hroot]
    exact hexpands'
  · exact hresolved

/-! ## Conversions -/

/-- The insertions that a run of a plan on a sample calls for. -/
def insertionsFor (plan : Plan) (sample : Value) : List Insertion :=
  insertions sample (Run.start plan sample).log.failures

section

variable {source : Fragment.Source} {document : Rule.Document} {plan : Plan} {sample : Value}
  {i : Insertion}

/-- An insertion is called for by an execution that fails. -/
theorem exists_failure_of_mem_insertionsFor (hi : i ∈ insertionsFor plan sample) :
    ∃ e ∈ (Run.Execution.top plan sample).executions, ∃ f op, e.failure? = some f ∧
      conversionOf f.transform f.input.kind = some op ∧
      i = ⟨e.place.static, f.index, op.transform, f.input.kind⟩ := by
  obtain ⟨f, hf, hinsertion⟩ := mem_insertions.mp hi
  have hmem : f ∈ (Run.start plan sample).log.failures :=
    List.mem_of_find?_eq_some (mem_firstFailures.mp hf).2
  rw [Run.Execution.failures_start] at hmem
  obtain ⟨e, he, hfailure⟩ := List.mem_filterMap.mp hmem
  obtain ⟨op, -, hop, -, rfl⟩ := insertion?_eq_some hinsertion
  exact ⟨e, he, f, op, hfailure, hop, by rw [Run.Execution.place_of_failure? hfailure]⟩

theorem orderly_insertionsFor (plan : Plan) (sample : Value) :
    Orderly (insertionsFor plan sample) := by
  refine ⟨fun i hi => ?_, fun i hi => ?_, descending_insertions ..⟩
  · obtain ⟨e, he, f, op, -, -, rfl⟩ := exists_failure_of_mem_insertionsFor hi
    exact Run.Execution.tree_of_mem_executions_top he
  · obtain ⟨e, he, f, op, -, -, rfl⟩ := exists_failure_of_mem_insertionsFor hi
    exact e.place.static_static

/-- An insertion goes in front of the call that failed, which it suits. -/
theorem exists_call_of_mem_insertionsFor (hplan : Plan.compile source document = .ok plan)
    (hi : i ∈ insertionsFor plan sample) {field : Rule.Field}
    (hfield : document.root.find? i.place.steps = some (.field field)) :
    ∃ call, field.transforms[i.index]? = some call ∧ Suits i.conversion call := by
  obtain ⟨e, he, f, op, hfailure, hop, rfl⟩ := exists_failure_of_mem_insertionsFor hi
  obtain ⟨call, hcall, hname⟩ := Run.Execution.exists_call_of_failure hplan he hfailure hfield
  exact ⟨call, hcall, _, _, op, hname, hop, rfl⟩

/-- The insertions that a sample calls for put conversions into fields and do nothing else. -/
theorem alike_insertAll (hplan : Plan.compile source document = .ok plan) (sample : Value) :
    Node.Alike FieldConverted document.root
      (insertAll document.root (insertionsFor plan sample)).value := by
  rw [value_insertAll (orderly_insertionsFor plan sample)]
  refine Node.alike_mapFields fun steps f _ hf => ?_
  refine converted_withConversions fun j call t hcall ht => ?_
  obtain ⟨i, hi, rfl, rfl, rfl⟩ := exists_insertion_of_conversionAt ht
  obtain ⟨call', hcall', hsuits⟩ := exists_call_of_mem_insertionsFor hplan hi hf
  rw [hcall] at hcall'
  cases hcall'
  exact hsuits

theorem fixConversions_of_compile (hplan : Plan.compile source document = .ok plan)
    (sample : Value) : fixConversions source document sample =
      ({ document with root := · }) <$> insertAll document.root (insertionsFor plan sample) := by
  simp only [fixConversions, hplan, insertionsFor]

theorem fix_of_fixText (htext : fixText document = pure document) (source : Fragment.Source)
    (sample : Value) :
    fix source document (some sample) = fixConversions source document sample := by
  rw [fix, htext]
  rfl

theorem fix_of_compile (htext : fixText document = pure document)
    (hplan : Plan.compile source document = .ok plan) (sample : Value) :
    fix source document (some sample) =
      ({ document with root := · }) <$> insertAll document.root (insertionsFor plan sample) := by
  rw [fix_of_fixText htext, fixConversions_of_compile hplan]

/-- A plan is there again after conversions, and it does what it did wherever that was without
errors. -/
theorem compile_fixConversions (hplan : Plan.compile source document = .ok plan) (sample : Value) :
    ∃ p, Plan.compile source (fixConversions source document sample).value =
        .ok { plan with root := p } ∧ Plan.Node.Alike Run.FieldPreserves plan.root p := by
  rw [fixConversions_of_compile hplan]
  exact Plan.compile_of_alike .refl (fun _ _ => FieldConverted.replaces)
    (fun _ _ _ hf => hf.exists_fieldLowers) hplan (alike_insertAll hplan sample)

/-- Fixes never change a conversion that works. Where there is a plan, there is one after the fixes,
and all that the first does without errors is done by the second, with the same warnings. -/
theorem examineDocument_preserves (hplan : Plan.compile source document = .ok plan)
    (sample : Option Value) :
    ∃ fixed plan', (examineDocument source document sample true).fixedRules = some fixed ∧
      Plan.compile source fixed = .ok plan' ∧
      ∀ input, (Run.execute plan input).isSuccess →
        Run.execute plan' input = Run.execute plan input := by
  obtain ⟨-, hmended⟩ := compile_fixText hplan
  cases sample with
  | none => exact ⟨_, plan, rfl, hmended, fun _ _ => rfl⟩
  | some sample =>
    obtain ⟨p, hfixed, halike⟩ := compile_fixConversions hmended sample
    refine ⟨_, { plan with root := p }, rfl, hfixed, fun input hsuccess => ?_⟩
    exact Run.execute_alike halike hsuccess

end

/-- A document that copies a name through transforms. -/
def nameRules (transforms : List String) : Rule.Document :=
  ⟨"1.2", .json, .json, [], [],
    .field ⟨.path "name", transforms.map (⟨·, []⟩), "name", false⟩⟩

/-- A plan that copies a name through operations. -/
def namePlan (operations : List Operation) : Plan :=
  ⟨"1.2", .json, .json,
    .field ⟨.path ⟨false, [.key "name"]⟩, operations, ⟨[.key "name"]⟩, false⟩⟩

/-- An input with a name. -/
def named (name : Value) : Value := .object [("name", name)]

/-- A sample in which a name is a truth has names written as text first, which changes no name that
is a text. -/
theorem examineDocument_preserves_trim :
    Plan.compile .empty (nameRules ["trim"]) = .ok (namePlan [.trim]) ∧
      (Run.execute (namePlan [.trim]) (named (.string " n"))).isSuccess ∧
      ∃ plan',
        (examineDocument .empty (nameRules ["trim"]) (some (named (.bool true))) true).fixedRules =
          some (nameRules ["toString", "trim"]) ∧
        Plan.compile .empty (nameRules ["toString", "trim"]) = .ok plan' ∧
        Run.execute plan' (named (.string " n")) =
          Run.execute (namePlan [.trim]) (named (.string " n")) := by
  have hplan : Plan.compile .empty (nameRules ["trim"]) = .ok (namePlan [.trim]) := by cbv
  have hsuccess : (Run.execute (namePlan [.trim]) (named (.string " n"))).isSuccess := by cbv
  have hvalue : (fix .empty (nameRules ["trim"]) (some (named (.bool true)))).value =
      nameRules ["toString", "trim"] := by
    rw [fix_of_compile (by cbv) hplan, insertionsFor, Run.Execution.failures_start]
    cbv
  obtain ⟨fixed, plan', hfixed, hplan', hsame⟩ :=
    examineDocument_preserves hplan (some (named (.bool true)))
  have hrules : nameRules ["toString", "trim"] = fixed := by
    rw [← hvalue]
    exact Option.some.inj hfixed
  subst hrules
  exact ⟨hplan, hsuccess, plan', hfixed, hplan', hsame _ hsuccess⟩

end Remap.Doctor
