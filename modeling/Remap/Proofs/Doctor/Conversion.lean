import Remap.Proofs.Doctor.Fix
import Remap.Proofs.Run.Alike
import Remap.Proofs.Transform.Signature

/-!
# Conversions

A conversion changes no value of a kind that the transform behind it accepts
(`apply_of_conversionOf`). So a field into which conversions were put (`FieldConverted`) passes the
checks as before, and it does what it did before wherever that is without errors
(`FieldConverted.exists_fieldLowers`).
-/

namespace Remap.Doctor

open Rule (Call)
open Run (Scope)

/-! ## The two conversions -/

/-- There are two conversions: to a number for what accepts nothing but numbers, and to a text for
what accepts nothing but texts. -/
theorem conversionOf_eq_some {t : Transform} {given : Kind} {op : Operation}
    (h : conversionOf t given = some op) :
    op = .toNumber ∧ t.accepts = some [.number] ∨ op = .toText ∧ t.accepts = some [.string] := by
  cases t <;> cases given <;> cases h
  case round.string => exact .inl ⟨rfl, rfl⟩
  all_goals exact .inr ⟨rfl, rfl⟩

/-- What a conversion makes is of a kind that the transform behind it accepts. -/
theorem acceptsKind_of_conversionOf {t : Transform} {given : Kind} {op : Operation}
    (h : conversionOf t given = some op) {lookup : SourcePath → Option Value} {v w : Value}
    (hw : op.apply lookup v = .ok w) : t.acceptsKind w.kind := by
  rcases conversionOf_eq_some h with ⟨rfl, haccepts⟩ | ⟨rfl, haccepts⟩
  · rw [Transform.acceptsKind, haccepts, Operation.kind_of_apply hw rfl]
    rfl
  · rw [Transform.acceptsKind, haccepts, Operation.kind_of_apply hw rfl]
    rfl

theorem conversionOf_eq_none {t : Transform} {given : Kind} (h : t.acceptsKind given) :
    conversionOf t given = none := if_pos h

/-- A conversion changes no value of a kind that the transform behind it accepts. -/
theorem apply_of_conversionOf {t : Transform} {given : Kind} {op : Operation}
    (h : conversionOf t given = some op) (lookup : SourcePath → Option Value) {v : Value}
    (hv : t.acceptsKind v.kind) : op.apply lookup v = .ok v := by
  rcases conversionOf_eq_some h with ⟨rfl, haccepts⟩ | ⟨rfl, haccepts⟩
  · obtain ⟨n, rfl⟩ := Value.exists_of_kind_number (Transform.kind_of_acceptsKind haccepts hv)
    rfl
  · obtain ⟨s, rfl⟩ := Value.exists_of_kind_string (Transform.kind_of_acceptsKind haccepts hv)
    rfl

/-! ## Converted fields -/

/-- A conversion that suits a call: for some kind of value, it is what the transform is missing. -/
def Suits (conversion : Transform) (call : Call) : Prop :=
  ∃ t given op, Transform.ofName? call.name = some t ∧ conversionOf t given = some op ∧
    op.transform = conversion

/-- Calls into which conversions were put, each in front of a call that it suits. -/
inductive Converted : List Call → List Call → Prop where
  | nil : Converted [] []
  | keep {call : Call} {calls calls' : List Call} : Converted calls calls' →
      Converted (call :: calls) (call :: calls')
  | convert {conversion : Transform} {call : Call} {calls calls' : List Call} :
      Suits conversion call → Converted calls calls' →
      Converted (call :: calls) (⟨conversion.name, []⟩ :: call :: calls')

theorem Converted.refl (calls : List Call) : Converted calls calls := by
  induction calls with
  | nil => exact .nil
  | cons call calls ih => exact .keep ih

/-- A field into which conversions were put. -/
structure FieldConverted (f f' : Rule.Field) : Prop where
  source : f'.source = f.source
  transforms : Converted f.transforms f'.transforms
  target : f'.target = f.target
  optional : f'.optional = f.optional

theorem FieldConverted.refl (f : Rule.Field) : FieldConverted f f :=
  ⟨rfl, .refl _, rfl, rfl⟩

/-- Every call of a converted field is one of the field itself, or calls a conversion. -/
theorem Converted.of_mem {calls calls' : List Call} (h : Converted calls calls') {call : Call}
    (hcall : call ∈ calls') : call ∈ calls ∨ ∃ next, ∃ conversion, Suits conversion next ∧
      call = ⟨conversion.name, []⟩ := by
  induction h with
  | nil => cases hcall
  | keep _ ih =>
    rcases List.mem_cons.mp hcall with rfl | hcall
    · exact .inl List.mem_cons_self
    · exact (ih hcall).imp_left (List.mem_cons_of_mem _)
  | @convert conversion next _ _ hsuits _ ih =>
    rcases List.mem_cons.mp hcall with rfl | hcall
    · exact .inr ⟨next, conversion, hsuits, rfl⟩
    rcases List.mem_cons.mp hcall with rfl | hcall
    · exact .inl List.mem_cons_self
    · exact (ih hcall).imp_left (List.mem_cons_of_mem _)

theorem FieldConverted.fieldSettled {f f' : Rule.Field} (h : FieldConverted f f')
    (hf : FieldSettled f) : FieldSettled f' := by
  refine ⟨h.source ▸ hf.source, fun call hcall => ?_, h.target ▸ hf.target⟩
  rcases h.transforms.of_mem hcall with hcall | ⟨_, conversion, -, rfl⟩
  · exact hf.calls call hcall
  · exact .of_ofName? (ofName?_name conversion)

/-- A conversion is called without arguments and has no placeholders. -/
theorem Suits.callProblems_eq_nil {conversion : Transform} {call : Call} (h : Suits conversion call)
    (splits : Nat) : Check.callProblems splits ⟨conversion.name, []⟩ = [] := by
  obtain ⟨t, given, op, -, hop, rfl⟩ := h
  rcases conversionOf_eq_some hop with ⟨rfl, -⟩ | ⟨rfl, -⟩
  · rfl
  · rfl

theorem FieldConverted.replaces {f f' : Rule.Field} (h : FieldConverted f f') :
    Check.Replaces f f' := by
  refine ⟨h.source, h.target, fun splits hcalls call hcall => ?_⟩
  rcases h.transforms.of_mem hcall with hcall | ⟨_, conversion, hsuits, rfl⟩
  · exact hcalls call hcall
  · exact hsuits.callProblems_eq_nil splits

/-! ## Running converted fields -/

theorem callLowers_of_conversionOf {t : Transform} {given : Kind} {op : Operation}
    (h : conversionOf t given = some op) : Plan.CallLowers ⟨op.transform.name, []⟩ op := by
  refine ⟨_, ofName?_name _, ?_⟩
  rcases conversionOf_eq_some h with ⟨rfl, -⟩ | ⟨rfl, -⟩ <;> rfl

theorem Suits.callLowers {conversion : Transform} {call : Call} (h : Suits conversion call)
    {op : Operation} (hop : Plan.CallLowers call op) :
    ∃ converting, Plan.CallLowers ⟨conversion.name, []⟩ converting ∧
      converting.isDefault = false ∧ op.isDefault = false ∧
      ∀ lookup v, op.transform.acceptsKind v.kind → converting.apply lookup v = .ok v := by
  obtain ⟨t, given, converting, hname, hconverting, rfl⟩ := h
  obtain ⟨t', hname', hbuild⟩ := hop
  rw [hname] at hname'
  cases hname'
  have htransform : op.transform = t := Operation.transform_of_build hbuild
  refine ⟨converting, callLowers_of_conversionOf hconverting, ?_, ?_, ?_⟩
  · rcases conversionOf_eq_some hconverting with ⟨rfl, -⟩ | ⟨rfl, -⟩ <;> rfl
  · refine Bool.eq_false_iff.mpr fun hdefault => ?_
    rw [Operation.transform_of_isDefault hdefault] at htransform
    subst htransform
    rcases conversionOf_eq_some hconverting with ⟨-, haccepts⟩ | ⟨-, haccepts⟩ <;> cases haccepts
  · intro lookup v hv
    rw [htransform] at hv
    exact apply_of_conversionOf hconverting lookup hv

/-- In front of a conversion, no other is ever called for. -/
theorem Suits.conversionOf_eq_none {conversion : Transform} {call : Call}
    (h : Suits conversion call) (given : Kind) : conversionOf conversion given = none := by
  obtain ⟨t, given', op, -, hop, rfl⟩ := h
  rcases conversionOf_eq_some hop with ⟨rfl, -⟩ | ⟨rfl, -⟩ <;> cases given <;> rfl

/-- Behind a conversion that suits a call, the call needs no other. -/
theorem Suits.conversionOf_eq_none_of_apply {conversion : Transform} {call : Call}
    (h : Suits conversion call) {converting : Operation}
    (hconverting : Plan.CallLowers ⟨conversion.name, []⟩ converting)
    {lookup : SourcePath → Option Value} {v w : Value} (hw : converting.apply lookup v = .ok w)
    {t : Transform} (ht : Transform.ofName? call.name = some t) : conversionOf t w.kind = none := by
  obtain ⟨t', given, op, ht', hop, rfl⟩ := h
  rw [ht] at ht'
  cases ht'
  cases hconverting.unique (callLowers_of_conversionOf hop)
  exact Doctor.conversionOf_eq_none (acceptsKind_of_conversionOf hop hw)

/-- Converted calls come down to operations that begin with a default where those did, and have the
same result where those have one. -/
theorem Converted.exists_operations {calls calls' : List Call} (h : Converted calls calls')
    {operations : List Operation} (hops : List.Forall₂ Plan.CallLowers calls operations) :
    ∃ operations', List.Forall₂ Plan.CallLowers calls' operations' ∧
      operations'.head?.any Operation.isDefault = operations.head?.any Operation.isDefault ∧
      ∀ scope i j v w, Run.applyAll scope i v operations = .value w →
        Run.applyAll scope j v operations' = .value w := by
  induction h generalizing operations with
  | nil =>
    cases hops
    exact ⟨[], .nil, rfl, fun _ _ _ _ _ h => h⟩
  | keep _ ih =>
    cases hops with
    | @cons _ op _ rest hop hrest =>
      obtain ⟨rest', hrest', -, happly⟩ := ih hrest
      refine ⟨op :: rest', .cons hop hrest', rfl, fun scope i j v w hvalue => ?_⟩
      simp only [Run.applyAll] at hvalue ⊢
      split at hvalue
      · next next hnext => exact happly scope (i + 1) (j + 1) next w hvalue
      · cases hvalue
  | convert hsuits _ ih =>
    cases hops with
    | @cons _ op _ rest hop hrest =>
      obtain ⟨rest', hrest', -, happly⟩ := ih hrest
      obtain ⟨converting, hconverting, hfirst, hsecond, hsame⟩ := hsuits.callLowers hop
      refine ⟨converting :: op :: rest', .cons hconverting (.cons hop hrest'), ?_, ?_⟩
      · simp only [List.head?_cons, Option.any_some, hfirst, hsecond]
      · intro scope i j v w hvalue
        simp only [Run.applyAll] at hvalue
        split at hvalue
        · next next hnext =>
          have hv : converting.apply scope.resolve? v = .ok v :=
            hsame _ v (Operation.acceptsKind_of_apply hnext)
          simp only [Run.applyAll, hv, hnext]
          exact happly scope (i + 1) (j + 1 + 1) next w hvalue
        · cases hvalue

/-- A converted field comes down to one that does what the field did, wherever that is without
errors. -/
theorem FieldConverted.exists_fieldLowers {f f' : Rule.Field} (h : FieldConverted f f')
    {g : Plan.Field} (hg : Plan.FieldLowers f g) :
    ∃ g', Plan.FieldLowers f' g' ∧ Run.FieldPreserves g g' := by
  obtain ⟨operations, hoperations, hdefault, happly⟩ := h.transforms.exists_operations hg.operations
  refine ⟨{ g with operations }, ⟨h.source ▸ hg.source, hoperations, h.target ▸ hg.target,
    hg.optional.trans h.optional.symm⟩, ?_⟩
  intro scope place output hclean
  have hstarts : Run.startsWithDefault { g with operations } = Run.startsWithDefault g := hdefault
  have horigin : Run.origin scope { g with operations } = Run.origin scope g := by
    simp only [Run.origin, hstarts]
  simp only [Run.runField, horigin] at hclean ⊢
  split
  · rfl
  · next v hv =>
    simp only [hv] at hclean
    split at hclean
    · next w hw => simp only [happly scope 0 0 v w hw]
    · have herror := hclean _ List.mem_cons_self
      cases herror

end Remap.Doctor
