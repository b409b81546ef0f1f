import Remap.Proofs.Fragment.Following
import Remap.Proofs.Rule.Alike

/-!
# Expansion

The expansion of a rule tree replaces every reference by the expansion of what its name is defined
as (`Expands`). Fragments that are resolved in an order in which each has all that it refers to
before it are expanded (`expands_resolve`).
-/

namespace Remap.Fragment

open Rule (Node)

/-- What a rule tree is once every reference in it is replaced by what its name is defined as, the
references in there included. -/
inductive Expands (defines : String → Node → Prop) : Node → Node → Prop where
  | field {f : Rule.Field} : Expands defines (.field f) (.field f)
  | ifThen {test : Condition} {yes yes' : Node} : Expands defines yes yes' →
      Expands defines (.condition test yes none) (.condition test yes' none)
  | ifElse {test : Condition} {yes no yes' no' : Node} : Expands defines yes yes' →
      Expands defines no no' →
      Expands defines (.condition test yes (some no)) (.condition test yes' (some no'))
  | merge {inputs inputs' : List Node} {policy : MergePolicy} {target : String} :
      List.Forall₂ (Expands defines) inputs inputs' →
      Expands defines (.merge inputs policy target) (.merge inputs' policy target)
  | split {source target : String} {item item' : Node} : Expands defines item item' →
      Expands defines (.split source item target) (.split source item' target)
  | fragment {name : String} {node expanded : Node} : defines name node →
      Expands defines node expanded → Expands defines (.fragment name) expanded
  | sequence {steps steps' : List Node} : List.Forall₂ (Expands defines) steps steps' →
      Expands defines (.sequence steps) (.sequence steps')

namespace Expands

variable {defines : String → Node → Prop}

/-- Induction over expansions. The motive holds of the trees of a list pair by pair. -/
theorem induct {motive : Node → Node → Prop} (field : ∀ f, motive (.field f) (.field f))
    (ifThen : ∀ test yes yes', motive yes yes' →
      motive (.condition test yes none) (.condition test yes' none))
    (ifElse : ∀ test yes no yes' no', motive yes yes' → motive no no' →
      motive (.condition test yes (some no)) (.condition test yes' (some no')))
    (merge : ∀ inputs inputs' policy target, List.Forall₂ motive inputs inputs' →
      motive (.merge inputs policy target) (.merge inputs' policy target))
    (split : ∀ source item item' target, motive item item' →
      motive (.split source item target) (.split source item' target))
    (fragment : ∀ name node expanded, defines name node → Expands defines node expanded →
      motive node expanded → motive (.fragment name) expanded)
    (sequence : ∀ steps steps', List.Forall₂ motive steps steps' →
      motive (.sequence steps) (.sequence steps'))
    {n e : Node} (h : Expands defines n e) : motive n e := by
  refine Expands.rec (motive_1 := fun n e _ => motive n e)
    (motive_2 := fun ns es _ => List.Forall₂ motive ns es) (fun {f} => field f)
    (fun _ ih => ifThen _ _ _ ih) (fun _ _ ihyes ihno => ifElse _ _ _ _ _ ihyes ihno)
    (fun _ ih => merge _ _ _ _ ih) (fun _ ih => split _ _ _ _ ih)
    (fun hdefines hnode ih => fragment _ _ _ hdefines hnode ih) (fun _ ih => sequence _ _ ih)
    .nil (fun _ _ ih ihs => .cons ih ihs) h

/-- An expansion stays one where names are defined besides. -/
theorem mono {defines' : String → Node → Prop} {n e : Node} (h : Expands defines n e)
    (hdefines : ∀ name node, defines name node → defines' name node) : Expands defines' n e :=
  h.induct (motive := Expands defines') (fun _ => .field) (fun _ _ _ => .ifThen)
    (fun _ _ _ _ _ => .ifElse) (fun _ _ _ _ => .merge) (fun _ _ _ _ => .split)
    (fun name node _ hnode _ ih => .fragment (hdefines name node hnode) ih) (fun _ _ => .sequence)

/-- Where names have one meaning each, a tree has one expansion. -/
theorem unique {n a b : Node} (ha : Expands defines n a) (hb : Expands defines n b)
    (hdefines : ∀ name a b, defines name a → defines name b → a = b) : a = b := by
  have all {ns as bs : List Node}
      (has : List.Forall₂ (fun n a => ∀ b, Expands defines n b → a = b) ns as)
      (hbs : List.Forall₂ (Expands defines) ns bs) : as = bs := by
    induction has generalizing bs with
    | nil => cases hbs; rfl
    | cons ha _ ih =>
      cases hbs with
      | cons hb hbs => rw [ha _ hb, ih hbs]
  refine ha.induct (motive := fun n a => ∀ b, Expands defines n b → a = b) ?field ?ifThen ?ifElse
    ?merge ?split ?fragment ?sequence b hb
  case field =>
    intro f b hb
    cases hb
    rfl
  case ifThen =>
    intro test yes yes' ih b hb
    cases hb with
    | ifThen hyes => rw [ih _ hyes]
  case ifElse =>
    intro test yes no yes' no' ihyes ihno b hb
    cases hb with
    | ifElse hyes hno => rw [ihyes _ hyes, ihno _ hno]
  case merge =>
    intro inputs inputs' policy target ih b hb
    cases hb with
    | merge hinputs => rw [all ih hinputs]
  case split =>
    intro source item item' target ih b hb
    cases hb with
    | split hitem => rw [ih _ hitem]
  case fragment =>
    intro name node expanded hnode _ ih b hb
    cases hb with
    | fragment hother hexpands =>
      cases hdefines name _ _ hnode hother
      exact ih _ hexpands
  case sequence =>
    intro steps steps' ih b hb
    cases hb with
    | sequence hsteps => rw [all ih hsteps]

/-- Replacing references by the expansions of what they name expands a tree. -/
theorem inline {fragments : Entries Node} {n : Node}
    (h : ∀ name ∈ n.references, ∃ m, fragments.get? name = some m ∧
      Expands defines (.fragment name) m) :
    Expands defines n (n.inline fragments) := by
  simp only [Node.mem_references] at h
  have all {ns : List Node}
      (ih : ∀ n ∈ ns, (∀ name, .fragment name ∈ n.nodes → ∃ m, fragments.get? name = some m ∧
        Expands defines (.fragment name) m) → Expands defines n (n.inline fragments))
      (h : ∀ name, .fragment name ∈ Node.allNodes ns → ∃ m, fragments.get? name = some m ∧
        Expands defines (.fragment name) m) :
      List.Forall₂ (Expands defines) ns (Node.inlineAll fragments ns) := by
    induction ns with
    | nil => exact .nil
    | cons n ns ihns =>
      refine .cons ?_ ?_
      · exact ih n List.mem_cons_self fun name hname => h name (List.mem_append_left _ hname)
      · exact ihns (fun m hm => ih m (List.mem_cons_of_mem _ hm))
          fun name hname => h name (List.mem_append_right _ hname)
  induction n using Node.induct with
  | field f => exact .field
  | fragment name =>
    obtain ⟨m, hm, hexpands⟩ := h name (List.mem_singleton_self _)
    rw [Node.inline, hm]
    exact hexpands
  | ifThen test yes ih =>
    exact .ifThen (ih fun name hname => h name (List.mem_cons_of_mem _ hname))
  | ifElse test yes no ihyes ihno =>
    refine .ifElse (ihyes fun name hname => ?_) (ihno fun name hname => ?_)
    · exact h name (List.mem_cons_of_mem _ (List.mem_append_left _ hname))
    · exact h name (List.mem_cons_of_mem _ (List.mem_append_right _ hname))
  | split source item target ih =>
    exact .split (ih fun name hname => h name (List.mem_cons_of_mem _ hname))
  | merge inputs policy target ih =>
    exact .merge (all ih fun name hname => h name (List.mem_cons_of_mem _ hname))
  | sequence steps ih =>
    exact .sequence (all ih fun name hname => h name (List.mem_cons_of_mem _ hname))

/-- Trees that are alike have expansions that are alike. -/
theorem alike {R : Rule.Field → Rule.Field → Prop} (hR : ∀ f, R f f) {n n' e : Node}
    (h : Expands defines n e) (halike : Node.Alike R n n') :
    ∃ e', Expands defines n' e' ∧ Node.Alike R e e' := by
  have all {ns ns' es : List Node}
      (ih : List.Forall₂ (fun n e => ∀ n', Node.Alike R n n' →
        ∃ e', Expands defines n' e' ∧ Node.Alike R e e') ns es)
      (halike : List.Forall₂ (Node.Alike R) ns ns') :
      ∃ es', List.Forall₂ (Expands defines) ns' es' ∧ List.Forall₂ (Node.Alike R) es es' := by
    induction ih generalizing ns' with
    | nil =>
      cases halike
      exact ⟨[], .nil, .nil⟩
    | cons hn _ ihns =>
      cases halike with
      | cons hfirst hrest =>
        obtain ⟨e', he', hfirst'⟩ := hn _ hfirst
        obtain ⟨es', hes', hrest'⟩ := ihns hrest
        exact ⟨e' :: es', .cons he' hes', .cons hfirst' hrest'⟩
  refine h.induct (motive := fun n e => ∀ n', Node.Alike R n n' →
    ∃ e', Expands defines n' e' ∧ Node.Alike R e e') ?field ?ifThen ?ifElse ?merge ?split ?fragment
    ?sequence n' halike
  case field =>
    intro f n' halike
    cases halike with
    | field hf => exact ⟨_, .field, .field hf⟩
  case ifThen =>
    intro test yes yes' ih n' halike
    cases halike with
    | ifThen hyes =>
      obtain ⟨e', he', hyes'⟩ := ih _ hyes
      exact ⟨_, .ifThen he', .ifThen hyes'⟩
  case ifElse =>
    intro test yes no yes' no' ihyes ihno n' halike
    cases halike with
    | ifElse hyes hno =>
      obtain ⟨y', hy', hyes'⟩ := ihyes _ hyes
      obtain ⟨z', hz', hno'⟩ := ihno _ hno
      exact ⟨_, .ifElse hy' hz', .ifElse hyes' hno'⟩
  case merge =>
    intro inputs inputs' policy target ih n' halike
    cases halike with
    | merge hinputs =>
      obtain ⟨es', hes', hinputs'⟩ := all ih hinputs
      exact ⟨_, .merge hes', .merge hinputs'⟩
  case split =>
    intro source item item' target ih n' halike
    cases halike with
    | split hitem =>
      obtain ⟨e', he', hitem'⟩ := ih _ hitem
      exact ⟨_, .split he', .split hitem'⟩
  case fragment =>
    intro name node expanded hdefines hnode _ n' halike
    cases halike with
    | fragment => exact ⟨expanded, .fragment hdefines hnode, .refl hR expanded⟩
  case sequence =>
    intro steps steps' ih n' halike
    cases halike with
    | sequence hsteps =>
      obtain ⟨es', hes', hsteps'⟩ := all ih hsteps
      exact ⟨_, .sequence hes', .sequence hsteps'⟩

/-- An expansion has the fields of its tree, at the same steps. -/
theorem find?_field {n e : Node} (h : Expands defines n e) {steps : List Rule.Step}
    {f : Rule.Field} (hf : n.find? steps = some (.field f)) : e.find? steps = some (.field f) := by
  have child {n e m : Node} {s : Rule.Step} (h : Expands defines n e) (hm : n.child? s = some m) :
      ∃ m', e.child? s = some m' ∧ Expands defines m m' := by
    cases h with
    | field | fragment => cases s <;> cases hm
    | ifThen hyes =>
      cases s with
      | yes => cases hm; exact ⟨_, rfl, hyes⟩
      | no | step | input | item | itemAt => cases hm
    | ifElse hyes hno =>
      cases s with
      | yes => cases hm; exact ⟨_, rfl, hyes⟩
      | no => cases hm; exact ⟨_, rfl, hno⟩
      | step | input | item | itemAt => cases hm
    | split hitem =>
      cases s with
      | item | itemAt => cases hm; exact ⟨_, rfl, hitem⟩
      | yes | no | step | input => cases hm
    | merge hinputs =>
      cases s with
      | input i =>
        obtain ⟨m', hm', hexpands⟩ := forall₂_getElem? hinputs.flip hm
        exact ⟨m', hm', hexpands⟩
      | yes | no | step | item | itemAt => cases hm
    | sequence hsteps =>
      cases s with
      | step i =>
        obtain ⟨m', hm', hexpands⟩ := forall₂_getElem? hsteps.flip hm
        exact ⟨m', hm', hexpands⟩
      | yes | no | input | item | itemAt => cases hm
  induction steps generalizing n e with
  | nil =>
    cases hf
    cases h
    rfl
  | cons s rest ih =>
    rw [Node.find?, Option.bind_eq_some_iff] at hf
    obtain ⟨m, hm, hf⟩ := hf
    obtain ⟨m', hm', hexpands⟩ := child h hm
    rw [Node.find?, hm', Option.bind_some]
    exact ih hexpands hf

/-- No references are left in an expansion. -/
theorem references_eq_nil {n e : Node} (h : Expands defines n e) : e.references = [] := by
  have all {ns es : List Node}
      (h : List.Forall₂ (fun _ e => ∀ name, .fragment name ∉ e.nodes) ns es) (name : String) :
      .fragment name ∉ Node.allNodes es := by
    induction h with
    | nil => exact List.not_mem_nil
    | cons hfirst _ ih =>
      rw [Node.allNodes, List.mem_append, not_or]
      exact ⟨hfirst name, ih⟩
  rw [Node.references_eq_nil]
  refine h.induct (motive := fun _ e => ∀ name, .fragment name ∉ e.nodes) ?field ?ifThen ?ifElse
    ?merge ?split ?fragment ?sequence
  case field =>
    intro f name
    simp [Node.nodes]
  case ifThen =>
    intro test yes yes' ih name
    simp [Node.nodes, ih name]
  case ifElse =>
    intro test yes no yes' no' ihyes ihno name
    simp [Node.nodes, ihyes name, ihno name]
  case merge =>
    intro inputs inputs' policy target ih name
    simp [Node.nodes, all ih name]
  case split =>
    intro source item item' target ih name
    simp [Node.nodes, ih name]
  case fragment =>
    intro name node expanded _ _ ih
    exact ih
  case sequence =>
    intro steps steps' ih name
    simp [Node.nodes, all ih name]

end Expands

/-! ## Resolving -/

variable {table : Table}

theorem Table.Defines.unique {name : String} {a b : Node} (ha : table.Defines name a)
    (hb : table.Defines name b) : a = b := by
  obtain ⟨origin, ha⟩ := ha
  obtain ⟨origin', hb⟩ := hb
  rw [ha] at hb
  cases hb
  rfl

theorem resolve_append_singleton {names : List String} {name : String} {definition : Definition}
    (h : table.get? name = some definition) :
    resolve table (names ++ [name]) =
      (resolve table names).put name (definition.node.inline (resolve table names)) := by
  simp only [resolve, List.foldl_append, List.foldl_cons, List.foldl_nil, h]

/-- What is in order is resolved to its expansion. -/
theorem expands_resolve {names : List String} (hnames : Topological table names)
    (hknown : ∀ entry ∈ table, ∀ name ∈ entry.2.node.references, table.has name)
    {name : String} (hname : name ∈ names) (hhas : table.has name) :
    ∃ m, (resolve table names).get? name = some m ∧
      Expands table.Defines (.fragment name) m := by
  induction hnames generalizing name with
  | nil => nomatch hname
  | @snoc names last _ hbefore ih =>
    by_cases hlast : table.has last
    · obtain ⟨definition, hfound⟩ := Option.isSome_iff_exists.mp hlast
      have hdefines : table.Defines last definition.node := ⟨definition.origin, hfound⟩
      rw [resolve_append_singleton hfound]
      by_cases heq : name = last
      · subst heq
        refine ⟨_, Entries.get?_put_self, .fragment hdefines (.inline fun other hother => ?_)⟩
        have hother' : table.has other := hknown _ (Entries.mem_of_get? hfound) other hother
        have hrefers : Refers table.Defines name other :=
          ⟨_, hdefines, hother, Table.has_iff_defines.mp hother'⟩
        exact ih (hbefore other hrefers) hother'
      · rw [Entries.get?_put_of_ne heq]
        exact ih (by simpa [heq] using hname) hhas
    · have heq : name ≠ last := fun heq => hlast (heq ▸ hhas)
      have hsame : resolve table (names ++ [last]) = resolve table names := by
        rw [Entries.has, Option.not_isSome_iff_eq_none] at hlast
        simp only [resolve, List.foldl_append, List.foldl_cons, List.foldl_nil, hlast]
      rw [hsame]
      exact ih (by simpa [heq] using hname) hhas

end Remap.Fragment
