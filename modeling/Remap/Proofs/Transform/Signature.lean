import Remap.Proofs.Results
import Remap.Transform.Apply

/-!
# The signatures of transforms

The catalog tells which kinds of value a transform accepts and which kind it makes. The main
statement is that operations keep to this (`signature_of_build`): they refuse a value for its kind
just where their transform does not accept the kind, and what they make is of the kind that their
transform makes.
-/

namespace Remap

/-! ## Values by their kind -/

namespace Value

variable {v : Value}

theorem exists_of_kind_string (h : v.kind = .string) : ∃ s, v = .string s := by
  cases v with
  | string s => exact ⟨s, rfl⟩
  | null | bool | number | array | object => cases h

theorem exists_of_kind_number (h : v.kind = .number) : ∃ n, v = .number n := by
  cases v with
  | number n => exact ⟨n, rfl⟩
  | null | bool | string | array | object => cases h

theorem exists_of_kind_array (h : v.kind = .array) : ∃ items, v = .array items := by
  cases v with
  | array items => exact ⟨items, rfl⟩
  | null | bool | number | string | object => cases h

end Value

theorem Transform.kind_of_acceptsKind {t : Transform} {only kind : Kind}
    (ht : t.accepts = some [only]) (h : t.acceptsKind kind = true) : kind = only := by
  simpa [acceptsKind, ht] using h

namespace Operation

variable {lookup : SourcePath → Option Value} {op : Operation} {v w : Value} {failure : Failure}

/-! ## Operations and their transforms -/

theorem transform_of_build {t : Transform} {args : List Value} (h : build t args = .ok op) :
    op.transform = t := by
  cases t with
  | trim | uppercase | lowercase | toNumber | toText | toBool | default => cases h; rfl
  | round =>
    simp only [build] at h
    split at h <;> cases h
    rfl
  | dateFormat =>
    obtain ⟨_, -, h⟩ := bind_eq_ok_iff.mp h
    obtain ⟨_, -, h⟩ := bind_eq_ok_iff.mp h
    obtain ⟨_, -, h⟩ := bind_eq_ok_iff.mp h
    obtain ⟨_, -, h⟩ := bind_eq_ok_iff.mp h
    cases h
    rfl
  | template =>
    obtain ⟨_, -, h⟩ := bind_eq_ok_iff.mp h
    obtain ⟨_, -, h⟩ := bind_eq_ok_iff.mp h
    cases h
    rfl
  | split =>
    obtain ⟨_, -, h⟩ := bind_eq_ok_iff.mp h
    split at h <;> cases h
    rfl
  | join =>
    obtain ⟨_, -, h⟩ := bind_eq_ok_iff.mp h
    cases h
    rfl
  | replace =>
    obtain ⟨_, -, h⟩ := bind_eq_ok_iff.mp h
    obtain ⟨_, -, h⟩ := bind_eq_ok_iff.mp h
    obtain ⟨_, -, h⟩ := bind_eq_ok_iff.mp h
    cases h
    rfl

theorem transform_of_isDefault (h : op.isDefault) : op.transform = .default := by
  cases op with
  | default fallback => rfl
  | trim | uppercase | lowercase | toNumber | toText | toBool | round | dateFormat | template
  | split | join | replace => cases h

/-! ## What operations make and what they refuse -/

theorem apply_of_not_acceptsKind (h : op.transform.acceptsKind v.kind = false) :
    op.apply lookup v = .error (.kind op.transform v.kind) := by
  unfold apply
  rw [h]
  rfl

/-- What an operation has a result for is of a kind that its transform accepts. -/
theorem acceptsKind_of_apply (h : op.apply lookup v = .ok w) :
    op.transform.acceptsKind v.kind = true := by
  cases haccepts : op.transform.acceptsKind v.kind with
  | true => rfl
  | false =>
    rw [apply_of_not_acceptsKind haccepts] at h
    cases h

theorem isKind_of_render {parts : List Template.Part}
    (h : render lookup v parts = .error failure) : failure.isKind = false := by
  induction parts with
  | nil => cases h
  | cons part rest ih =>
    have behind {text : String}
        (h : (render lookup v rest >>= fun more => .ok (text ++ more)) = .error failure) :
        failure.isKind = false := by
      rcases bind_eq_error_iff.mp h with hrest | ⟨more, -, h⟩
      · exact ih hrest
      · cases h
    cases part with
    | literal text => exact behind h
    | value => exact behind h
    | path p =>
      simp only [render] at h
      split at h
      · exact behind h
      · cases h
        rfl

theorem isKind_of_reformatDate {source target : Date.Form} {text : String}
    (h : reformatDate source target text = .error failure) : failure.isKind = false := by
  rcases bind_eq_error_iff.mp h with hread | ⟨moment, -, hwrite⟩
  · obtain ⟨fault, -, rfl⟩ := mapError_eq_error_iff.mp hread
    cases source <;> rfl
  · obtain ⟨fault, -, rfl⟩ := mapError_eq_error_iff.mp hwrite
    rfl

/-- What comes of a value of a kind that the transform accepts: a result of the kind that the
transform makes, or a failure that is about the value and not its kind. -/
theorem apply_cases (lookup : SourcePath → Option Value)
    (haccepts : op.transform.acceptsKind v.kind = true) :
    (∃ w, op.apply lookup v = .ok w ∧ ∀ kind ∈ op.transform.output, w.kind = kind) ∨
      ∃ failure, op.apply lookup v = .error failure ∧ failure.isKind = false := by
  have string (hop : op.transform.accepts = some [.string]) : ∃ s, v = .string s :=
    Value.exists_of_kind_string (Transform.kind_of_acceptsKind hop haccepts)
  cases op with
  | trim | uppercase | lowercase | split | replace =>
    obtain ⟨s, rfl⟩ := string rfl
    exact .inl ⟨_, rfl, fun kind hkind => Option.some.inj hkind⟩
  | dateFormat source target =>
    obtain ⟨s, rfl⟩ := string rfl
    change (∃ w, (reformatDate source target s).map Value.string = .ok w ∧ _) ∨
      ∃ failure, (reformatDate source target s).map Value.string = .error failure ∧ _
    cases hdate : reformatDate source target s with
    | ok text => exact .inl ⟨_, rfl, fun kind hkind => Option.some.inj hkind⟩
    | error failure => exact .inr ⟨failure, rfl, isKind_of_reformatDate hdate⟩
  | template parts =>
    change (∃ w, (render lookup v parts).map Value.string = .ok w ∧ _) ∨
      ∃ failure, (render lookup v parts).map Value.string = .error failure ∧ _
    cases hrender : render lookup v parts with
    | ok text => exact .inl ⟨_, rfl, fun kind hkind => Option.some.inj hkind⟩
    | error failure => exact .inr ⟨failure, rfl, isKind_of_render hrender⟩
  | round digits =>
    obtain ⟨n, rfl⟩ := Value.exists_of_kind_number (Transform.kind_of_acceptsKind rfl haccepts)
    exact .inl ⟨_, rfl, fun kind hkind => Option.some.inj hkind⟩
  | join separator =>
    obtain ⟨items, rfl⟩ := Value.exists_of_kind_array (Transform.kind_of_acceptsKind rfl haccepts)
    simp only [apply, haccepts, Bool.not_true, Bool.false_eq_true, if_false]
    split
    · exact .inl ⟨_, rfl, fun kind hkind => Option.some.inj hkind⟩
    · exact .inr ⟨_, rfl, rfl⟩
  | toNumber | toText | toBool =>
    simp only [apply, haccepts, Bool.not_true, Bool.false_eq_true, if_false]
    split
    · exact .inl ⟨_, rfl, fun kind hkind => Option.some.inj hkind⟩
    · exact .inr ⟨_, rfl, rfl⟩
  | default fallback => exact .inl ⟨_, rfl, fun kind hkind => nomatch hkind⟩

/-- What an operation makes is of the kind that its transform makes. -/
theorem kind_of_apply (h : op.apply lookup v = .ok w) {kind : Kind}
    (hkind : op.transform.output = some kind) : w.kind = kind := by
  rcases apply_cases lookup (acceptsKind_of_apply h) with ⟨made, hmade, hkinds⟩ | ⟨_, hfailed, -⟩
  · rw [h] at hmade
    cases hmade
    exact hkinds kind hkind
  · rw [h] at hfailed
    cases hfailed

/-- An operation that is built for a transform refuses a value for its kind just where the transform
does not accept the kind, and what it makes is of the kind that the transform makes, if the
transform makes only one. -/
theorem signature_of_build {t : Transform} {args : List Value} (hbuild : build t args = .ok op)
    (lookup : SourcePath → Option Value) (v : Value) :
    ((∃ refusing found, op.apply lookup v = .error (.kind refusing found)) ↔
      t.acceptsKind v.kind = false) ∧
    (t.acceptsKind v.kind = false → op.apply lookup v = .error (.kind t v.kind)) ∧
    ∀ w, op.apply lookup v = .ok w → ∀ kind ∈ t.output, w.kind = kind := by
  rw [← transform_of_build hbuild]
  refine ⟨⟨?_, fun hrefused => ⟨_, _, apply_of_not_acceptsKind hrefused⟩⟩,
    apply_of_not_acceptsKind, fun w hw kind hkind => kind_of_apply hw hkind⟩
  rintro ⟨refusing, found, hrefused⟩
  refine Bool.eq_false_iff.mpr fun haccepts => ?_
  rcases apply_cases lookup haccepts with ⟨w, hw, -⟩ | ⟨failure, hfailed, hkind⟩
  · rw [hrefused] at hw
    cases hw
  · rw [hrefused] at hfailed
    cases hfailed
    cases hkind

/-- A text is not joined, and a list of scalars is joined to a text. -/
theorem signature_of_build_join :
    build .join [.string ", "] = .ok (.join ", ") ∧
      (join ", ").apply (fun _ => none) (.string "a") = .error (.kind .join .string) ∧
      ∃ w, (join ", ").apply (fun _ => none) (.array [.string "a", .null, .bool true]) = .ok w ∧
        w.kind = .string := by
  have hbuild : build .join [.string ", "] = .ok (.join ", ") := by rfl
  have happly : (join ", ").apply (fun _ => none) (.array [.string "a", .null, .bool true]) =
      .ok (.string "a, , true") := by cbv
  exact ⟨hbuild, (signature_of_build hbuild _ (.string "a")).2.1 rfl, _, happly,
    (signature_of_build hbuild _ _).2.2 _ happly _ rfl⟩

end Operation

end Remap
