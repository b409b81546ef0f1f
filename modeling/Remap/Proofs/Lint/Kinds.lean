import Remap.Proofs.Lint.Warnings
import Remap.Proofs.Run.Reports
import Remap.Proofs.Transform.Signature

/-!
# Kinds that are not accepted

The linter follows the kind of a value through the calls of a field, as far as it is known. In a run
the value is of that kind (`tells_kindAfter`), so operations fail at a call that is given a kind it
does not accept, if not before (`exists_failed_of_mem_mismatches`). The main statement is that a
field with such a call never writes anything (`transformKindMismatch_sound`).
-/

namespace Remap

/-! ## Texts of calls -/

theorem Rule.Step.notMem_indexText (i : Nat) : '.' ∉ (indexText i).toList := by
  obtain ⟨label, htext, hlabel⟩ := (Step.step i).exists_label
  have hindex : label = "steps".toList ++ (indexText i).toList := by
    simpa [text] using htext.symm
  intro hdot
  exact hlabel (hindex ▸ List.mem_append_right _ hdot)

/-- The text of a call tells the text of its field's place. -/
theorem Check.text_of_callPath_eq {p q : Rule.Place} {i j : Nat} (h : callPath p i = callPath q j) :
    p.text = q.text := by
  have toList_callPath (p : Rule.Place) (i : Nat) : (callPath p i).toList =
      p.text.toList ++ '.' :: ("transforms".toList ++ (Rule.Step.indexText i).toList) := by
    simp [callPath]
  have notMem (i : Nat) : '.' ∉ "transforms".toList ++ (Rule.Step.indexText i).toList := by
    rw [List.mem_append, not_or]
    exact ⟨by simp, Rule.Step.notMem_indexText i⟩
  have hlist := congrArg String.toList h
  rw [toList_callPath, toList_callPath, append_cons_inj (notMem i) (notMem j)] at hlist
  exact String.toList_inj.mp hlist.1

/-! ## Fields that have nothing to write -/

namespace Run.Execution

variable {e : Execution} {g : Plan.Field}

theorem of_origin_error (hnode : e.node = .field g) {source : String}
    (horigin : origin e.scope g = .error source) :
    e.write? = none ∧ ∀ before, e.output before = before ∧ (e.log before).diagnostics =
      [(Problem.absent g.optional source g.target.text).diagnostic e.place.text] := by
  constructor
  · simp only [write?, hnode, horigin]
  · intro before
    rw [output, log, hnode, exec, runField, horigin]
    exact ⟨rfl, rfl⟩

theorem of_applyAll_failed (hnode : e.node = .field g) {v : Value}
    (horigin : origin e.scope g = .ok v) {i : Nat} {op : Operation} {input : Value}
    {failure : Operation.Failure}
    (hfailed : applyAll e.scope 0 v g.operations = .failed i op input failure) :
    e.write? = none ∧ ∀ before, e.output before = before ∧
      (e.log before).diagnostics = [(Problem.transform i failure).diagnostic e.place.text] := by
  constructor
  · simp only [write?, hnode, horigin, hfailed]
  · intro before
    have hrun : runField e.scope e.place g before =
        ⟨before, ⟨[(Problem.transform i failure).diagnostic e.place.text],
          [⟨e.place, i, op.transform, input⟩]⟩⟩ := by
      simp only [runField, horigin, hfailed]
    rw [output, log, hnode, exec, hrun]
    exact ⟨rfl, rfl⟩

end Run.Execution

namespace Lint

open Run (Execution Scope applyAll origin)

variable {known : Option Kind} {v w : Value}

/-! ## Kinds in a run -/

/-- A value is of the kind that is known, if one is. -/
def Tells (known : Option Kind) (v : Value) : Prop := ∀ kind ∈ known, v.kind = kind

theorem kindAfter_of_ne {t : Transform} (h : t ≠ .default) (args : List Value) :
    kindAfter t args known = t.output := by
  cases t with
  | default => exact absurd rfl h
  | trim | uppercase | lowercase | toNumber | toText | toBool | round | dateFormat | template
  | split | join | replace => rfl

theorem tells_kindAfter_default {args : List Value} (hv : Tells known v) :
    Tells (kindAfter .default args known) (if v.isNull then args.head?.getD .null else v) := by
  intro kind hkind
  simp only [kindAfter] at hkind
  split at hkind
  · next made fallback hargs =>
    split at hkind
    · next hfallback =>
      cases hkind
      rw [hargs, Option.getD_some]
      split
      · exact hfallback
      · exact hv kind rfl
    · cases hkind
  · cases hkind

/-- What an operation makes is of the kind that its call is known to make. -/
theorem tells_kindAfter {t : Transform} {args : List Value} {op : Operation}
    (hbuild : Operation.build t args = .ok op) {lookup : SourcePath → Option Value}
    (hv : Tells known v) (happly : op.apply lookup v = .ok w) :
    Tells (kindAfter t args known) w := by
  by_cases ht : t = .default
  · subst ht
    cases hbuild
    cases happly
    exact tells_kindAfter_default hv
  · intro kind hkind
    rw [kindAfter_of_ne ht, ← Operation.transform_of_build hbuild] at hkind
    exact Operation.kind_of_apply happly hkind

/-- Operations fail where one of their calls is given a kind that it does not accept. -/
theorem exists_failed_of_mem_mismatches {calls : List Rule.Call} {ops : List Operation}
    (hops : List.Forall₂ Plan.CallLowers calls ops) (scope : Scope) (hv : Tells known v)
    {n i : Nat} {maker : Option Transform} {warning : Warning}
    (h : (i, warning) ∈ mismatches n known maker calls) (k : Nat) :
    ∃ j op input failure, applyAll scope k v ops = .failed j op input failure := by
  induction hops generalizing known v n maker k with
  | nil => cases h
  | @cons call op calls ops hcall _ ih =>
    obtain ⟨t, hname, hbuild⟩ := hcall
    simp only [applyAll]
    cases happly : op.apply scope.resolve? v with
    | error failure => exact ⟨k, op, v, failure, rfl⟩
    | ok next =>
      have haccepts : t.acceptsKind v.kind = true := by
        rw [← Operation.transform_of_build hbuild]
        exact Operation.acceptsKind_of_apply happly
      -- The call has a result, so it is not the one that is given the wrong kind.
      have hlater :
          (i, warning) ∈ mismatches (n + 1) (kindAfter t call.args known) (some t) calls := by
        simp only [mismatches, hname] at h
        rcases List.mem_append.mp h with h | h
        · split at h
          · rw [← hv _ rfl, if_pos haccepts] at h
            cases h
          · cases h
        · exact h
      exact ih (tells_kindAfter hbuild hv happly) hlater (k + 1)

/-! ## Fields -/

theorem exists_field_of_mem_nodeWarnings {visit : Rule.Visit} {d : Diagnostic}
    (hd : d ∈ nodeWarnings visit) (hcode : d.code = .transformKindMismatch) :
    ∃ f i w, visit.node = .field f ∧
      (i, w) ∈ mismatches 0 (startKind? f.source) none f.transforms ∧
      d.path = Check.callPath visit.place i := by
  rcases nodeWarnings_cases hd with ⟨hother, -⟩ | ⟨hother, -⟩ | ⟨-, hfield⟩
  · rw [hcode] at hother
    cases hother
  · rw [hcode] at hother
    cases hother
  · exact hfield

/-- A field starts from a value of the kind that is known of its source. -/
theorem tells_startKind {source : Rule.Source} {g : Plan.Field} {scope : Scope}
    (hsource : Plan.OriginLowers source g.source) (horigin : origin scope g = .ok v) :
    Tells (startKind? source) v := by
  intro kind hkind
  cases source with
  | path text => cases hkind
  | constant value =>
    cases hkind
    generalize hg : g.source = origin at hsource
    cases hsource
    rw [Run.origin, hg] at horigin
    cases horigin
    rfl

/-- The codes with which a field ends that has nothing to write. -/
def fieldCodes : List Code := [.optionalSourceMissing, .requiredSourceMissing, .transformFailed]

/-- An execution of a field with a call that is given a kind it does not accept writes nothing, and
reports one thing, whatever the output was. -/
theorem exists_report_of_mem_mismatches {f : Rule.Field} {i : Nat} {warning : Warning}
    (hwarning : (i, warning) ∈ mismatches 0 (startKind? f.source) none f.transforms)
    {e : Execution} (hlowers : Plan.Lowers (.field f) e.node) :
    e.write? = none ∧ ∃ found : Diagnostic, found.path = e.place.text ∧ found.code ∈ fieldCodes ∧
      ∀ before, e.output before = before ∧ (e.log before).diagnostics = [found] := by
  generalize hnode : e.node = node at hlowers
  cases hlowers with
  | @field _ g hg =>
    cases horigin : origin e.scope g with
    | error source =>
      obtain ⟨hwrite, hends⟩ := Execution.of_origin_error hnode horigin
      refine ⟨hwrite, _, rfl, ?_, hends⟩
      change (Run.Problem.absent g.optional source g.target.text).code ∈ fieldCodes
      cases g.optional with
      | true => exact List.mem_cons_self
      | false => exact List.mem_cons_of_mem _ List.mem_cons_self
    | ok v =>
      obtain ⟨j, op, input, failure, hfailed⟩ := exists_failed_of_mem_mismatches hg.operations
        e.scope (tells_startKind hg.source horigin) hwarning 0
      obtain ⟨hwrite, hends⟩ := Execution.of_applyAll_failed hnode horigin hfailed
      exact ⟨hwrite, _, rfl, List.mem_of_getElem? (i := 2) rfl, hends⟩

/-- **Kind mismatches** are mistakes. Where a document has a plan, the linter warns of mismatches at
calls of fields only. In every run, an execution of such a field writes nothing: it leaves the
output as it is and ends with an absent source or a failed transform, which the run reports at its
place. -/
theorem transformKindMismatch_sound (source : Fragment.Source) (document : Rule.Document)
    (plan : Plan) (hplan : Plan.compile source document = .ok plan) (d : Diagnostic)
    (hd : d ∈ Lint.document source document) (hcode : d.code = .transformKindMismatch) :
    (∃ visit ∈ (Fragment.bundle source document).document.root.visits .root, ∃ f i,
      visit.node = .field f ∧ d.path = Check.callPath visit.place i) ∧
    ∀ input, ∀ e ∈ (Execution.top plan input).executions, ∀ i,
      d.path = Check.callPath e.place.static i →
        e.write? = none ∧ ∃ found ∈ (Run.start plan input).log.diagnostics,
          found.path = e.place.text ∧ found.code ∈ fieldCodes ∧
            ∀ before, e.output before = before ∧ (e.log before).diagnostics = [found] := by
  obtain ⟨visit, hvisit, hd⟩ := exists_visit_of_mem_document hplan hd (by rw [hcode]; nofun)
  obtain ⟨f, i, warning, hnode, hwarning, hpath⟩ := exists_field_of_mem_nodeWarnings hd hcode
  constructor
  · exact ⟨visit, hvisit, f, i, hnode, hpath⟩
  intro input e he j hat
  have hlowered := (Plan.compile_eq_ok_iff.mp hplan).2
  have hplace : e.place.static = visit.place := by
    rw [← visit.place.below_nil]
    apply Execution.static_eq_of_text he hvisit
    rw [Rule.Place.below_nil]
    exact Check.text_of_callPath_eq (hat.symm.trans hpath)
  have hlowers : Plan.Lowers (.field f) e.node :=
    hnode ▸ (Execution.follows_of_mem_executions hlowered he).lowers_of_mem_visits hvisit hplace
  obtain ⟨hwrite, found, hfound, hkinds, hends⟩ := exists_report_of_mem_mismatches hwarning hlowers
  obtain ⟨before, hsubset⟩ := Execution.exists_diagnostics_subset he (.object [])
  have hreported : found ∈ (e.log before).diagnostics := by
    rw [(hends before).2]
    exact List.mem_singleton_self found
  exact ⟨hwrite, found, hsubset hreported, hfound, hkinds, hends⟩

/-- Rules that trim the numbers of rows. -/
def rowNumbers : Rule.Document :=
  ⟨"1.2", .json, .json, [], [],
    .split "rows" (.field ⟨.path "n", [⟨"toNumber", []⟩, ⟨"trim", []⟩], "n", false⟩) "ns"⟩

def rowNumbersPlan : Plan :=
  ⟨"1.2", .json, .json,
    .split ⟨false, [.key "rows"]⟩
      (.field ⟨.path ⟨false, [.key "n"]⟩, [.toNumber, .trim], ⟨[.key "n"]⟩, false⟩) ⟨[.key "ns"]⟩⟩

/-- An input with one row, of which the number can be read. -/
def oneNumber : Value := .object [("rows", .array [.object [("n", .string "5")]])]

/-- The number is not written. -/
theorem transformKindMismatch_sound_rowNumbers :
    Plan.compile .empty rowNumbers = .ok rowNumbersPlan ∧
      (Warning.kindMismatch .trim .number (some .toNumber)).diagnostic "root.item.transforms[1]" ∈
        Lint.document .empty rowNumbers ∧
      ∃ e ∈ (Execution.top rowNumbersPlan oneNumber).executions, e.place.text = "root.item[0]" ∧
        e.write? = none ∧ ∃ found ∈ (Run.start rowNumbersPlan oneNumber).log.diagnostics,
          found.path = "root.item[0]" ∧ found.code ∈ fieldCodes := by
  have hplan : Plan.compile .empty rowNumbers = .ok rowNumbersPlan := by cbv
  have hwarned : (Warning.kindMismatch .trim .number (some .toNumber)).diagnostic
      "root.item.transforms[1]" ∈ Lint.document .empty rowNumbers :=
    List.mem_of_getElem? (i := 0) (by cbv)
  have hmem : (⟨⟨oneNumber, [(.object [("n", .string "5")], 0)], false⟩, ⟨"root", [.itemAt 0]⟩,
      ⟨"root", [.itemAt 0]⟩,
      .field ⟨.path ⟨false, [.key "n"]⟩, [.toNumber, .trim], ⟨[.key "n"]⟩, false⟩⟩ : Execution) ∈
      (Execution.top rowNumbersPlan oneNumber).executions :=
    List.mem_of_getElem? (i := 1) (by cbv)
  obtain ⟨hwrite, found, hfound, hpath, hcode, -⟩ := (transformKindMismatch_sound .empty rowNumbers
    rowNumbersPlan hplan _ hwarned rfl).2 oneNumber _ hmem 1 (by rfl)
  have htext : (⟨"root", [.itemAt 0]⟩ : Rule.Place).text = "root.item[0]" := by rfl
  exact ⟨hplan, hwarned, _, hmem, htext, hwrite, found, hfound, hpath.trans htext, hcode⟩

end Lint

end Remap
