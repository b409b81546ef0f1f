import Mathlib.Data.Nat.Find
import Remap.Proofs.Doctor.Preservation

/-!
# Fixing what is fixed

Fixed rules need no other static fix, and no conversion is called for twice. But a conversion lets
values through to transforms that they did not come to before, and these may fail on the same sample
(`Relapses`). The main statement is that nothing else is left to be fixed (`examineDocument_again`).
-/

namespace Remap.Doctor

open Rule (Node)

/-! ## Fixed documents are settled -/

theorem Settled.alike {m m' : Node} (h : Settled m) (halike : Node.Alike FieldConverted m m') :
    Settled m' := by
  cases halike with
  | field hf => exact hf.fieldSettled h
  | ifThen | ifElse | merge | split | fragment | sequence => exact h

theorem documentSettled_fix (source : Fragment.Source) (document : Rule.Document)
    (sample : Option Value) : DocumentSettled (fix source document sample).value := by
  have hmended := documentSettled_fixText document
  cases sample with
  | none => exact hmended
  | some sample =>
    change DocumentSettled (fixConversions source (fixText document).value sample).value
    cases hplan : Plan.compile source (fixText document).value with
    | error errors =>
      simp only [fixConversions, hplan]
      exact hmended
    | ok plan =>
      rw [fixConversions_of_compile hplan]
      refine ⟨fun m' hm' => ?_, hmended.fragments⟩
      obtain ⟨m, hm, halike⟩ := exists_of_mem_forall₂ (alike_insertAll hplan sample).nodes.flip hm'
      exact (hmended.root m hm).alike halike

/-! ## The same failures -/

section

variable {source : Fragment.Source} {document fixed : Rule.Document} {plan : Plan} {p : Plan.Node}
  {S : Plan.Field → Plan.Field → Prop} {sample : Value} {i : Insertion} {f f' : Rule.Field}

/-- An insertion is called for before and after a change to a field, if the change is behind the
transform. -/
theorem mem_insertionsFor_of_take (hplan : Plan.compile source document = .ok plan)
    (hplan' : Plan.compile source fixed = .ok { plan with root := p })
    (halike : Plan.Node.Alike S plan.root p)
    (hf : document.root.find? i.place.steps = some (.field f))
    (hf' : fixed.root.find? i.place.steps = some (.field f')) (hsource : f'.source = f.source)
    (htake : f'.transforms.take (i.index + 1) = f.transforms.take (i.index + 1))
    (hi : i ∈ insertionsFor { plan with root := p } sample) : i ∈ insertionsFor plan sample := by
  obtain ⟨failure, hfailure, hinsertion⟩ := mem_insertions.mp hi
  obtain ⟨op, v, -, -, rfl⟩ := insertion?_eq_some hinsertion
  have hfirst := (mem_firstFailures.mp hfailure).2
  refine mem_insertions.mpr ⟨failure, mem_firstFailures.mpr ⟨List.not_mem_nil, ?_⟩, hinsertion⟩
  rw [Run.Execution.failures_start] at hfirst ⊢
  rw [← hfirst]
  -- The runs go side by side, so it is enough that executions fail alike at the transform.
  refine find?_filterMap_of_forall₂ (Run.Execution.alike_top halike sample).executions ?_
  intro e he e' he' hsame
  refine Option.ext fun x => ?_
  rw [Option.filter_eq_some_iff, Option.filter_eq_some_iff]
  refine and_congr_left fun hkey => ?_
  obtain ⟨hat, hindex⟩ := Prod.mk.inj (of_decide_eq_true hkey)
  by_cases hplace : e.place.static = failure.place.static
  · rw [← hplace] at hf hf'
    rw [← hsame.place] at hf'
    obtain ⟨g, hnode, hg⟩ := Run.Execution.exists_fieldLowers hplan he hf
    obtain ⟨g', hnode', hg'⟩ := Run.Execution.exists_fieldLowers hplan' he' hf'
    obtain ⟨hreads, hoperations⟩ := hg.take hg' hsource htake
    rw [← hindex] at hoperations
    exact Run.Execution.failure?_iff_of_take hsame.scope hsame.place hnode hnode' hreads hoperations
  · refine iff_of_false (fun hx => hplace ?_) fun hx => hplace ?_
    · rw [← Run.Execution.place_of_failure? hx, hat]
    · rw [← hsame.place, ← Run.Execution.place_of_failure? hx, hat]

/-- Neither a conversion nor the transform behind it calls for another conversion. -/
theorem index_ne_of_converted (hplan : Plan.compile source document = .ok plan)
    (hi : i ∈ insertionsFor plan sample)
    (hf : document.root.find? i.place.steps = some (.field f)) {k : Nat} {conversion : Transform}
    {call : Rule.Call} (hsuits : Suits conversion call)
    (hconversion : f.transforms[k]? = some ⟨conversion.name, []⟩)
    (hcall : f.transforms[k + 1]? = some call) : i.index ≠ k ∧ i.index ≠ k + 1 := by
  obtain ⟨e, he, failure, op, hfailure, hop, rfl⟩ := exists_failure_of_mem_insertionsFor hi
  obtain ⟨failing, hfailing, hname⟩ := Run.Execution.exists_call_of_failure hplan he hfailure hf
  constructor
  · rintro rfl
    rw [hconversion] at hfailing
    cases hfailing
    rw [ofName?_name] at hname
    cases hname
    rw [hsuits.conversionOf_eq_none] at hop
    cases hop
  · intro hindex
    have hindex : failure.index = k + 1 := hindex
    rw [hindex, hcall] at hfailing
    cases hfailing
    obtain ⟨operations, v, _, cause, hlowers, happly, -⟩ :=
      Run.Execution.exists_failed hplan he hfailure hf
    obtain ⟨converting, hbefore, hconverting⟩ := forall₂_getElem? hlowers.flip hconversion
    rw [hindex] at happly
    obtain ⟨u, hu⟩ := Run.exists_apply_of_applyAll_failed happly hbefore
    rw [hsuits.conversionOf_eq_none_of_apply hconverting hu hname] at hop
    cases hop

theorem exists_first {α : Type} {meant : Nat → Option α} {n : Nat}
    (h : ¬ ∀ j < n, meant j = none) : ∃ k < n, ∃ a, meant k = some a ∧ ∀ j < k, meant j = none := by
  push Not at h
  obtain ⟨j, hj, hne⟩ := h
  have hex : ∃ k, (meant k).isSome := ⟨j, Option.isSome_iff_ne_none.mpr hne⟩
  obtain ⟨a, ha⟩ := Option.isSome_iff_exists.mp (Nat.find_spec hex)
  have hle : Nat.find hex ≤ j := Nat.find_min' hex (Option.isSome_iff_ne_none.mpr hne)
  refine ⟨Nat.find hex, Nat.lt_of_le_of_lt hle hj, a, ha, fun j hj => ?_⟩
  exact Option.not_isSome_iff_eq_none.mp (Nat.find_min hex hj)

/-- What is called for by a run of rules into which conversions were put stands behind a transform
that one of them was put in front of. -/
theorem exists_fix_before (hplan : Plan.compile source document = .ok plan) {plan' : Plan}
    (hplan' : Plan.compile source (fixConversions source document sample).value = .ok plan')
    (hi : i ∈ insertionsFor plan' sample)
    (hlands : Lands (fixConversions source document sample).value.root i) :
    ∃ j conversion next given, j + 1 < i.index ∧
      ⟨.conversion conversion next given,
        i.place.text ++ ".transforms" ++ Rule.Step.indexText j⟩ ∈
          (fixConversions source document sample).fixes := by
  obtain ⟨p, hcompile, halike⟩ := compile_fixConversions hplan sample
  rw [hplan'] at hcompile
  cases hcompile
  have horderly := orderly_insertionsFor plan sample
  have horderly' := orderly_insertionsFor { plan with root := p } sample
  rw [fixConversions_of_compile hplan] at hplan' hlands ⊢
  obtain ⟨f', hf', -⟩ := hlands
  have hmapped := hf'
  rw [Fixed.value_map, value_insertAll horderly] at hmapped
  obtain ⟨f, hf, rfl⟩ := Node.exists_field_of_find?_mapFields
    (Rule.Place.static_of_mem_steps (horderly'.static i hi)) hmapped
  by_cases hnone :
      ∀ j < i.index + 1, conversionAt (insertionsFor plan sample) i.place.steps j = none
  · -- The field is as it was up to the transform, so that the first run called for the same.
    have hmem := mem_insertionsFor_of_take hplan hplan' halike hf hf' rfl
      (take_withConversions hnone) hi
    exact absurd (hnone i.index (Nat.lt_succ_self _)) (conversionAt_ne_none hmem)
  · obtain ⟨k, hk, conversion, hmeant, hbefore⟩ := exists_first hnone
    obtain ⟨first, hmem, hsteps, rfl, rfl⟩ := exists_insertion_of_conversionAt hmeant
    have hfirst : document.root.find? first.place.steps = some (.field f) := hsteps ▸ hf
    obtain ⟨call, hcall, hsuits⟩ := exists_call_of_mem_insertionsFor hplan hmem hfirst
    obtain ⟨hconversion, hnext⟩ := getElem?_withConversions hbefore hmeant hcall
    have hindex := index_ne_of_converted hplan' hi hf' hsuits hconversion hnext
    have hlands : Lands document.root first :=
      ⟨f, hfirst, (List.getElem?_eq_some_iff.mp hcall).1⟩
    obtain ⟨next, hfix⟩ := hlands.exists_mem_fixes horderly.static hmem
    have hplace : first.place = i.place :=
      Rule.Place.eq_of_steps ((horderly.tree first hmem).trans (horderly'.tree i hi).symm) hsteps
    rw [hplace] at hfix
    exact ⟨first.index, first.conversion, next, first.given, by omega, hfix⟩

end

/-! ## Fixing again -/

/-- A field of fixed rules calls for a conversion on the sample they were fixed with, behind a
transform that a conversion was put in front of. -/
def Relapses (source : Fragment.Source) (sample : Value) (fixes : List Fix)
    (fixed : Rule.Document) : Prop :=
  ∃ plan, Plan.compile source fixed = .ok plan ∧
    ∃ i ∈ insertionsFor plan sample, Lands fixed.root i ∧
      ∃ j conversion next given, j + 1 < i.index ∧
        ⟨.conversion conversion next given,
          i.place.text ++ ".transforms" ++ Rule.Step.indexText j⟩ ∈ fixes

section

variable {source : Fragment.Source} {document : Rule.Document} {sample : Value}

theorem fixConversions_eq_pure_iff : fixConversions source document sample = pure document ↔
    ∀ plan, Plan.compile source document = .ok plan →
      ∀ i ∈ insertionsFor plan sample, ¬ Lands document.root i := by
  cases hplan : Plan.compile source document with
  | error errors =>
    refine iff_of_true ?_ fun _ h => nomatch h
    simp only [fixConversions, hplan]
  | ok plan =>
    rw [fixConversions_of_compile hplan]
    constructor
    · rintro hpure _ ⟨⟩ i hi hlands
      obtain ⟨next, hfix⟩ := hlands.exists_mem_fixes (orderly_insertionsFor plan sample).static hi
      have hnone : (insertAll document.root (insertionsFor plan sample)).fixes = [] :=
        congrArg Fixed.fixes hpure
      rw [hnone] at hfix
      cases hfix
    · intro hnone
      rw [insertAll_of_not_lands (hnone plan rfl)]
      rfl

/-- Fixed rules that still call for a conversion relapse. -/
theorem relapses_of_lands {plan : Plan} {i : Insertion}
    (hplan : Plan.compile source (fix source document (some sample)).value = .ok plan)
    (hi : i ∈ insertionsFor plan sample)
    (hlands : Lands (fix source document (some sample)).value.root i) :
    Relapses source sample (fix source document (some sample)).fixes
      (fix source document (some sample)).value := by
  refine ⟨plan, hplan, i, hi, hlands, ?_⟩
  cases hmended : Plan.compile source (fixText document).value with
  | error errors =>
    have hvalue : (fix source document (some sample)).value = (fixText document).value := by
      simp only [fix, fixConversions, hmended, Fixed.value_pure]
    rw [hvalue, hmended] at hplan
    cases hplan
  | ok first =>
    obtain ⟨j, conversion, next, given, hlt, hfix⟩ := exists_fix_before hmended hplan hi hlands
    exact ⟨j, conversion, next, given, hlt, List.mem_append_right _ hfix⟩

end

/-- The doctor proposes nothing for rules that it fixed itself, unless they relapse. -/
theorem examineDocument_again (source : Fragment.Source) (document : Rule.Document)
    (sample : Option Value) :
    let first := examineDocument source document sample true
    ∃ fixed, first.fixedRules = some fixed ∧
      let second := examineDocument source fixed sample true
      (second.fixes = [] ∧ second.fixedRules = some fixed ↔
        ∀ s, sample = some s → ¬ Relapses source s first.fixes fixed) := by
  refine ⟨(fix source document sample).value, rfl, ?_⟩
  have hsecond : fix source (fix source document sample).value sample =
      pure (fix source document sample).value ↔
        ∀ s, sample = some s → ¬ Relapses source s (fix source document sample).fixes
          (fix source document sample).value := by
    have htext := (documentSettled_fix source document sample).fixText_eq
    cases sample with
    | none => exact iff_of_true htext fun _ h => nomatch h
    | some sample =>
      rw [fix_of_fixText htext, fixConversions_eq_pure_iff]
      constructor
      · rintro hnone _ ⟨⟩ ⟨plan, hplan, i, hi, hlands, -⟩
        exact hnone plan hplan i hi hlands
      · intro hrelapses plan hplan i hi hlands
        exact hrelapses sample rfl (relapses_of_lands hplan hi hlands)
  rw [Fixed.eq_pure_iff] at hsecond
  exact (and_congr_right fun _ => Option.some_inj).trans hsecond

/-- A sample in which the name is a truth. -/
def truth : Option Value := some (named (.bool true))

/-- Where a truth is written as text before it is trimmed, it may be read as a truth again and come
to a transform that it did not come to before. -/
theorem examineDocument_again_trim :
    (examineDocument .empty (nameRules ["trim", "toBool", "trim"]) truth true).fixedRules =
        some (nameRules ["toString", "trim", "toBool", "trim"]) ∧
      (examineDocument .empty (nameRules ["toString", "trim", "toBool", "trim"]) truth true).fixes =
        [⟨.conversion .toText "trim" .bool, "root.transforms[3]"⟩] ∧
      (examineDocument .empty (nameRules ["toString", "trim", "toBool", "trim"]) truth true).fixedRules =
        some (nameRules ["toString", "trim", "toBool", "toString", "trim"]) := by
  have hplan : Plan.compile .empty (nameRules ["trim", "toBool", "trim"]) =
      .ok (namePlan [.trim, .toBool, .trim]) := by cbv
  have hfirst : fix .empty (nameRules ["trim", "toBool", "trim"]) truth =
      ⟨nameRules ["toString", "trim", "toBool", "trim"],
        [⟨.conversion .toText "trim" .bool, "root.transforms[0]"⟩]⟩ := by
    rw [truth, fix_of_compile (by cbv) hplan, insertionsFor, Run.Execution.failures_start]
    cbv
  have hplan' : Plan.compile .empty (nameRules ["toString", "trim", "toBool", "trim"]) =
      .ok (namePlan [.toText, .trim, .toBool, .trim]) := by cbv
  have hsecond : fix .empty (nameRules ["toString", "trim", "toBool", "trim"]) truth =
      ⟨nameRules ["toString", "trim", "toBool", "toString", "trim"],
        [⟨.conversion .toText "trim" .bool, "root.transforms[3]"⟩]⟩ := by
    rw [truth, fix_of_compile (by cbv) hplan', insertionsFor, Run.Execution.failures_start]
    cbv
  refine ⟨?_, congrArg Fixed.fixes hsecond, ?_⟩
  · exact congrArg (fun x : Fixed Rule.Document => some x.value) hfirst
  · exact congrArg (fun x : Fixed Rule.Document => some x.value) hsecond

end Remap.Doctor
