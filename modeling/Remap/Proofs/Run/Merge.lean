import Mathlib.Data.List.Induction
import Mathlib.Data.List.Nodup
import Remap.Proofs.Run.Output
import Remap.Proofs.Value
import Remap.Run.Merge

/-!
# Merging values

A merge goes down two values together. At a place it leaves the one that is there, takes the one
that comes in, merges the entries of two objects, or settles a clash (`Meets`), and so it does with
each entry of an object (`Enters`). What one entry becomes depends on nothing but what is dropped at
its place and below (`enters_mergeFields`), and a merge drops places there only (`drops_mergeValue`).
-/

namespace Remap.Run.Merge

variable {policy : MergePolicy} {p q child : TargetPath} {dropped before after : List TargetPath}
  {existing incoming value : Value} {fields rest : Entries Value} {name : String}

/-! ## Places -/

/-- The place that names lead to from a place. -/
def below (p : TargetPath) (names : List String) : TargetPath :=
  ⟨p.segments ++ names.map .key⟩

@[simp] theorem below_nil (p : TargetPath) : below p [] = p := by
  rw [below, List.map_nil, List.append_nil]

@[simp] theorem below_key (p : TargetPath) (name : String) (names : List String) :
    below (key p name) names = below p (name :: names) := by
  rw [below, below, key, List.map_cons, List.append_assoc, List.singleton_append]

theorem below_inj {names others : List String} : below p names = below p others ↔ names = others := by
  rw [below, below, TargetPath.mk.injEq, List.append_cancel_left_eq]
  exact List.map_inj_right fun _ _ => Segment.key.inj

/-- Whether names lead from a place to another. -/
def Leads (p q : TargetPath) : Prop := ∃ names, q = below p names

theorem Leads.refl (p : TargetPath) : Leads p p := ⟨[], (below_nil p).symm⟩

theorem Leads.of_key (h : Leads (key p name) q) : Leads p q := by
  obtain ⟨names, rfl⟩ := h
  exact ⟨name :: names, below_key p name names⟩

theorem Leads.key_unique {other : String} (h : Leads (key p name) q) (h' : Leads (key p other) q) :
    name = other := by
  obtain ⟨names, rfl⟩ := h
  obtain ⟨others, heq⟩ := h'
  rw [below_key, below_key, below_inj] at heq
  exact (List.cons.inj heq).1

/-! ## How a value meets another -/

/-- How a value that is at a place and one that comes in can meet. -/
inductive Meets (p : TargetPath) (dropped : List TargetPath) : Value → Value → Prop where
  | closed {existing incoming : Value} : p ∈ dropped → Meets p dropped existing incoming
  | vacant {existing incoming : Value} : p ∉ dropped → existing.isVacant = true →
      Meets p dropped existing incoming
  | objects {fields others : Entries Value} : p ∉ dropped → fields ≠ [] →
      Meets p dropped (.object fields) (.object others)
  | clash {existing incoming : Value} : p ∉ dropped → existing.isVacant = false →
      bothObjects existing incoming = false → Meets p dropped existing incoming

theorem meets (p : TargetPath) (dropped : List TargetPath) (existing incoming : Value) :
    Meets p dropped existing incoming := by
  by_cases hp : p ∈ dropped
  · exact .closed hp
  cases hvacant : existing.isVacant with
  | true => exact .vacant hp hvacant
  | false =>
    cases hboth : bothObjects existing incoming with
    | false => exact .clash hp hvacant hboth
    | true =>
      unfold bothObjects at hboth
      split at hboth
      · refine .objects hp ?_
        rintro rfl
        cases hvacant
      · cases hboth

theorem mergeValue_of_mem (h : p ∈ dropped) :
    mergeValue policy p existing dropped incoming = ⟨existing, dropped⟩ := by
  have hcontains : dropped.contains p = true := List.contains_iff_mem.mpr h
  cases incoming <;> (unfold mergeValue; rw [if_pos hcontains])

theorem mergeValue_of_isVacant (h : p ∉ dropped) (hvacant : existing.isVacant = true) :
    mergeValue policy p existing dropped incoming = ⟨incoming, dropped⟩ := by
  have hcontains : ¬dropped.contains p = true := mt List.contains_iff_mem.mp h
  cases incoming <;> (unfold mergeValue; rw [if_neg hcontains, if_pos hvacant])

theorem mergeValue_objects (h : p ∉ dropped) (hfull : fields ≠ []) (others : Entries Value) :
    mergeValue policy p (.object fields) dropped (.object others) =
      ⟨.object (mergeFields policy p fields dropped others).fields,
        (mergeFields policy p fields dropped others).dropped⟩ := by
  have hcontains : ¬dropped.contains p = true := mt List.contains_iff_mem.mp h
  have hvacant : ¬(Value.object fields).isVacant = true := by
    rw [Value.isVacant_iff]
    rintro (heq | heq)
    · cases heq
    · exact hfull (Value.object.inj heq)
  unfold mergeValue
  rw [if_neg hcontains, if_neg hvacant]

theorem mergeValue_clash (h : p ∉ dropped) (hfull : existing.isVacant = false)
    (hboth : bothObjects existing incoming = false) :
    mergeValue policy p existing dropped incoming =
      settle policy p existing incoming dropped := by
  have hcontains : ¬dropped.contains p = true := mt List.contains_iff_mem.mp h
  have hvacant : ¬existing.isVacant = true := Bool.eq_false_iff.mp hfull
  cases incoming with
  | object others =>
    unfold mergeValue
    rw [if_neg hcontains, if_neg hvacant]
    cases existing with
    | object => cases hboth
    | null | bool | number | string | array => rfl
  | null | bool | number | string | array =>
    unfold mergeValue
    rw [if_neg hcontains, if_neg hvacant]

/-! ## How an entry meets another -/

/-- What becomes of an entry of an object when an entry for the same place comes in, and of the
places dropped so far. -/
inductive Enters (policy : MergePolicy) (child : TargetPath) (dropped : List TargetPath)
    (value : Value) : Option Value → Option Value → List TargetPath → Prop where
  | closed {entry : Option Value} : child ∈ dropped →
      Enters policy child dropped value entry entry dropped
  | new : child ∉ dropped → Enters policy child dropped value none (some value) dropped
  | collides {existing : Value} : child ∉ dropped → policy = .error →
      existing.isVacant = false → bothObjects existing value = false →
      Enters policy child dropped value (some existing) none (dropped ++ [child])
  | merged {existing : Value} : child ∉ dropped →
      (policy = .error → existing.isVacant = true ∨ bothObjects existing value = true) →
      Enters policy child dropped value (some existing)
        (some (mergeValue policy child existing dropped value).value)
        (mergeValue policy child existing dropped value).dropped

theorem mergeFields_of_none (h : key p name ∉ dropped) (hget : fields.get? name = none) :
    mergeFields policy p fields dropped ((name, value) :: rest) =
      mergeFields policy p (fields.put name value) dropped rest := by
  have hcontains : ¬dropped.contains (key p name) = true := mt List.contains_iff_mem.mp h
  rw [mergeFields]
  simp only [if_neg hcontains, hget]

theorem mergeFields_of_some (h : key p name ∉ dropped) (hget : fields.get? name = some existing)
    (hopen : policy = .error → existing.isVacant = true ∨ bothObjects existing value = true) :
    mergeFields policy p fields dropped ((name, value) :: rest) =
      mergeFields policy p
        (fields.put name (mergeValue policy (key p name) existing dropped value).value)
        (mergeValue policy (key p name) existing dropped value).dropped rest := by
  have hcontains : ¬dropped.contains (key p name) = true := mt List.contains_iff_mem.mp h
  have hcollides :
      ¬(policy = .error && !existing.isVacant && !bothObjects existing value) = true := by
    simp only [Bool.and_eq_true, decide_eq_true_eq, Bool.not_eq_true']
    rintro ⟨⟨hpolicy, hvacant⟩, hboth⟩
    rcases hopen hpolicy with h | h
    · rw [hvacant] at h
      cases h
    · rw [hboth] at h
      cases h
  rw [mergeFields]
  simp only [if_neg hcontains, hget, if_neg hcollides]

/-- Entries are merged into an object one after the other. -/
theorem mergeFields_cons (policy : MergePolicy) (p : TargetPath) (fields : Entries Value)
    (dropped : List TargetPath) (name : String) (value : Value) (rest : Entries Value) :
    ∃ entry after, Enters policy (key p name) dropped value (fields.get? name) entry after ∧
      mergeFields policy p fields dropped ((name, value) :: rest) =
        mergeFields policy p (fields.assign name entry) after rest := by
  by_cases h : key p name ∈ dropped
  · refine ⟨_, dropped, .closed h, ?_⟩
    have hcontains : dropped.contains (key p name) = true := List.contains_iff_mem.mpr h
    rw [mergeFields, Entries.assign_get?]
    exact if_pos hcontains
  cases hget : fields.get? name with
  | none => exact ⟨_, dropped, .new h, mergeFields_of_none h hget⟩
  | some existing =>
    by_cases hopen : policy = .error → existing.isVacant = true ∨ bothObjects existing value = true
    · exact ⟨_, _, .merged h hopen, mergeFields_of_some h hget hopen⟩
    · obtain ⟨hpolicy, hboth⟩ := Classical.not_imp.mp hopen
      obtain ⟨hvacant, hboth⟩ := not_or.mp hboth
      rw [Bool.not_eq_true] at hvacant hboth
      refine ⟨none, _, .collides h hpolicy hvacant hboth, ?_⟩
      have hcontains : ¬dropped.contains (key p name) = true := mt List.contains_iff_mem.mp h
      rw [mergeFields]
      simp only [if_neg hcontains, hget, hpolicy, hvacant, hboth]
      rfl

/-! ## What is dropped -/

/-- How the list of dropped places grows where a merge may drop some places: it does so only under
one policy, at its end, and no place comes twice. -/
structure Drops (policy : MergePolicy) (may : TargetPath → Prop) (before after : List TargetPath) :
    Prop where
  isPrefix : before <+: after
  nodup : before.Nodup → after.Nodup
  new : ∀ q ∈ after, q ∉ before → policy = .error ∧ may q

namespace Drops

variable {may may' : TargetPath → Prop} {later : List TargetPath}

theorem refl : Drops policy may before before :=
  ⟨List.prefix_rfl, id, fun _ h hnot => absurd h hnot⟩

theorem trans (h : Drops policy may before after) (h' : Drops policy may after later) :
    Drops policy may before later := by
  refine ⟨h.isPrefix.trans h'.isPrefix, h'.nodup ∘ h.nodup, fun q hq hnot => ?_⟩
  by_cases hmem : q ∈ after
  · exact h.new q hmem hnot
  · exact h'.new q hq hmem

theorem mono (h : Drops policy may before after) (hmay : ∀ q, may q → may' q) :
    Drops policy may' before after :=
  ⟨h.isPrefix, h.nodup, fun q hq hnot => (h.new q hq hnot).imp_right (hmay q)⟩

theorem snoc (hnot : p ∉ before) (hpolicy : policy = .error) (hmay : may p) :
    Drops policy may before (before ++ [p]) := by
  refine ⟨List.prefix_append .., fun h => ?_, fun q hq hnew => ?_⟩
  · exact h.append (List.nodup_singleton p) (List.disjoint_singleton.mpr hnot)
  · cases List.mem_singleton.mp ((List.mem_append.mp hq).resolve_left hnew)
    exact ⟨hpolicy, hmay⟩

theorem mem_iff (h : Drops policy may before after) (hnot : ¬may q) :
    q ∈ after ↔ q ∈ before := by
  refine ⟨fun hq => ?_, fun hq => h.isPrefix.subset hq⟩
  by_contra hnew
  exact hnot (h.new q hq hnew).2

/-- Under the other policies nothing is dropped. -/
theorem eq_nil (h : Drops policy may [] after) (hpolicy : policy ≠ .error) : after = [] :=
  List.eq_nil_iff_forall_not_mem.mpr fun q hq =>
    hpolicy (h.new q hq List.not_mem_nil).1

end Drops

theorem drops_settle (h : p ∉ dropped) :
    Drops policy (Leads p) dropped (settle policy p existing incoming dropped).dropped := by
  cases policy with
  | error => exact .snoc h rfl (.refl p)
  | lastWins | firstWins | appendArray => exact .refl

/-- The places of entries of an object, and below. -/
def LeadsVia (p : TargetPath) (names : List String) (q : TargetPath) : Prop :=
  ∃ name ∈ names, Leads (key p name) q

theorem Enters.drops_of (hvalue : ∀ existing, Drops policy (Leads child) dropped
      (mergeValue policy child existing dropped value).dropped)
    {entry merged : Option Value} (h : Enters policy child dropped value entry merged after) :
    Drops policy (Leads child) dropped after := by
  cases h with
  | closed | new => exact .refl
  | collides hnew hpolicy => exact .snoc hnew hpolicy (.refl child)
  | merged => exact hvalue _

theorem drops_mergeFields_of {incoming : Entries Value}
    (hvalues : ∀ e ∈ incoming, ∀ (p : TargetPath) (dropped : List TargetPath) (existing : Value),
      Drops policy (Leads p) dropped (mergeValue policy p existing dropped e.2).dropped) :
    Drops policy (LeadsVia p incoming.keys) dropped
      (mergeFields policy p fields dropped incoming).dropped := by
  induction incoming generalizing fields dropped with
  | nil => exact .refl
  | cons e rest ih =>
    obtain ⟨name, value⟩ := e
    obtain ⟨hvalue, hrest⟩ := List.forall_mem_cons.mp hvalues
    obtain ⟨entry, after, henters, heq⟩ :=
      mergeFields_cons policy p fields dropped name value rest
    rw [heq]
    have hfirst := henters.drops_of fun existing => hvalue _ _ existing
    refine (hfirst.mono fun q hq => ?_).trans ((ih hrest).mono fun q hq => ?_)
    · exact ⟨name, List.mem_cons_self, hq⟩
    · obtain ⟨other, hother, hq⟩ := hq
      exact ⟨other, List.mem_cons_of_mem _ hother, hq⟩

/-- A merge drops only places at and below its own. -/
theorem drops_mergeValue (policy : MergePolicy) (p : TargetPath) (dropped : List TargetPath)
    (existing incoming : Value) :
    Drops policy (Leads p) dropped (mergeValue policy p existing dropped incoming).dropped := by
  induction incoming using Value.induct_fields generalizing p dropped existing with
  | step incoming ih =>
    cases meets p dropped existing incoming with
    | closed h =>
      rw [mergeValue_of_mem h]
      exact .refl
    | vacant h hvacant =>
      rw [mergeValue_of_isVacant h hvacant]
      exact .refl
    | objects h hfull =>
      rw [mergeValue_objects h hfull]
      refine Drops.mono (drops_mergeFields_of fun e he p dropped existing => ?_) ?_
      · exact ih _ rfl e he p dropped existing
      · rintro q ⟨name, -, hq⟩
        exact hq.of_key
    | clash h hfull hboth =>
      rw [mergeValue_clash h hfull hboth]
      exact drops_settle h

theorem drops_mergeFields (policy : MergePolicy) (p : TargetPath) (dropped : List TargetPath)
    (fields incoming : Entries Value) :
    Drops policy (LeadsVia p incoming.keys) dropped
      (mergeFields policy p fields dropped incoming).dropped :=
  drops_mergeFields_of fun e _ p dropped existing => drops_mergeValue policy p dropped existing e.2

theorem Enters.drops {entry merged : Option Value}
    (h : Enters policy child dropped value entry merged after) :
    Drops policy (Leads child) dropped after :=
  h.drops_of fun existing => drops_mergeValue policy child dropped existing value

/-! ## The entries of a merged object -/

theorem get?_mergeFields_of_none {others : Entries Value} (h : others.get? name = none) :
    Entries.get? name (mergeFields policy p fields dropped others).fields = fields.get? name := by
  induction others generalizing fields dropped with
  | nil => rfl
  | cons e rest ih =>
    obtain ⟨other, value⟩ := e
    obtain ⟨entry, after, -, heq⟩ := mergeFields_cons policy p fields dropped other value rest
    have hne : name ≠ other := by
      rintro rfl
      exact Entries.get?_eq_none_iff.mp h List.mem_cons_self
    rw [Entries.get?, if_neg hne.symm] at h
    rw [heq, ih h, Entries.get?_assign_of_ne hne]

/-- What a merged object has under a name that comes in is what the one entry is merged into. Only
what is dropped at the entry's place and below bears on it. -/
theorem enters_mergeFields (policy : MergePolicy) (p : TargetPath) (dropped : List TargetPath)
    {fields others : Entries Value} (hfields : fields.keys.Nodup) (hothers : others.keys.Nodup)
    (h : others.get? name = some value) :
    ∃ before after, Enters policy (key p name) before value (fields.get? name)
        (Entries.get? name (mergeFields policy p fields dropped others).fields) after ∧
      ∀ q, Leads (key p name) q → (q ∈ before ↔ q ∈ dropped) ∧
        (q ∈ (mergeFields policy p fields dropped others).dropped ↔ q ∈ after) := by
  induction others generalizing fields dropped with
  | nil => cases h
  | cons e rest ih =>
    obtain ⟨other, first⟩ := e
    obtain ⟨hother, hrest⟩ := List.nodup_cons.mp hothers
    obtain ⟨entry, inner, henters, heq⟩ := mergeFields_cons policy p fields dropped other first rest
    rw [heq]
    by_cases hname : other = name
    · subst hname
      rw [Entries.get?, if_pos rfl] at h
      cases h
      refine ⟨dropped, inner, ?_, fun q hq => ⟨Iff.rfl, ?_⟩⟩
      · rw [get?_mergeFields_of_none (Entries.get?_eq_none_iff.mpr hother),
          Entries.get?_assign_self hfields]
        exact henters
      · refine (drops_mergeFields policy p inner _ rest).mem_iff ?_
        rintro ⟨name, hname, hvia⟩
        exact hother (hq.key_unique hvia ▸ hname)
    · rw [Entries.get?, if_neg hname] at h
      obtain ⟨before, after, hlater, hplaces⟩ :=
        ih inner (Entries.keys_assign_nodup entry hfields) hrest h
      rw [Entries.get?_assign_of_ne (Ne.symm hname)] at hlater
      refine ⟨before, after, hlater, fun q hq => ?_⟩
      obtain ⟨hbefore, hafter⟩ := hplaces q hq
      refine ⟨hbefore.trans (henters.drops.mem_iff fun hvia => hname ?_), hafter⟩
      exact hvia.key_unique hq

theorem Enters.distinct_of (hvalue : value.Distinct)
    (hmerged : ∀ existing : Value, existing.Distinct →
      (mergeValue policy child existing dropped value).value.Distinct)
    {entry merged : Option Value} (h : Enters policy child dropped value entry merged after)
    (hentry : ∀ v ∈ entry, v.Distinct) : ∀ v ∈ merged, v.Distinct := by
  cases h with
  | closed => exact hentry
  | new =>
    intro v hv
    cases hv
    exact hvalue
  | collides => nofun
  | merged =>
    intro v hv
    cases hv
    exact hmerged _ (hentry _ rfl)

theorem distinct_mergeFields_of {others : Entries Value}
    (hvalues : ∀ e ∈ others, e.2.Distinct ∧
      ∀ (p : TargetPath) (dropped : List TargetPath) (existing : Value), existing.Distinct →
        (mergeValue policy p existing dropped e.2).value.Distinct)
    (hfields : (Value.object fields).Distinct) :
    (Value.object (mergeFields policy p fields dropped others).fields).Distinct := by
  induction others generalizing fields dropped with
  | nil => exact hfields
  | cons e rest ih =>
    obtain ⟨name, value⟩ := e
    obtain ⟨⟨hvalue, hmerged⟩, hrest⟩ := List.forall_mem_cons.mp hvalues
    obtain ⟨entry, after, henters, heq⟩ := mergeFields_cons policy p fields dropped name value rest
    rw [heq]
    have hentry : ∀ v ∈ entry, v.Distinct := by
      refine henters.distinct_of hvalue (hmerged _ _) fun v hv => ?_
      exact hfields.of_mem_fields (Entries.mem_of_get? hv)
    refine ih hrest (.object (Entries.keys_assign_nodup entry hfields.keys_nodup) fun e he => ?_)
    rcases Entries.mem_assign he with ⟨v, hv, rfl⟩ | he
    · exact hentry v hv
    · exact hfields.of_mem_fields he

/-- A merge of values without a key twice has no key twice. -/
theorem distinct_mergeValue (policy : MergePolicy) (p : TargetPath) (dropped : List TargetPath)
    {existing incoming : Value} (hexisting : existing.Distinct) (hincoming : incoming.Distinct) :
    (mergeValue policy p existing dropped incoming).value.Distinct := by
  induction incoming using Value.induct_fields generalizing p dropped existing with
  | step incoming ih =>
    cases meets p dropped existing incoming with
    | closed h =>
      rw [mergeValue_of_mem h]
      exact hexisting
    | vacant h hvacant =>
      rw [mergeValue_of_isVacant h hvacant]
      exact hincoming
    | objects h hfull =>
      rw [mergeValue_objects h hfull]
      refine distinct_mergeFields_of (fun e he => ?_) hexisting
      have hvalue := hincoming.of_mem_fields he
      exact ⟨hvalue, fun p dropped existing hexisting => ih _ rfl e he p dropped hexisting hvalue⟩
    | clash h hfull hboth =>
      rw [mergeValue_clash h hfull hboth]
      cases policy with
      | error => exact .scalar rfl
      | firstWins => exact hexisting
      | lastWins | appendArray => exact hincoming

/-! ## Branch by branch -/

/-- What has been merged so far with one more branch that wrote something. -/
def absorb (policy : MergePolicy) (st : State) (branch : Value) : State :=
  mergeValue policy ⟨[]⟩ st.value st.dropped branch

theorem fold_snoc_of_isVacant {branch : Value} (branches : List Value)
    (h : branch.isVacant = true) : fold policy (branches ++ [branch]) = fold policy branches := by
  simp [fold, List.filter_append, h]

theorem fold_snoc {branch : Value} (branches : List Value) (h : branch.isVacant = false) :
    fold policy (branches ++ [branch]) = absorb policy (fold policy branches) branch := by
  simp [fold, List.filter_append, h, absorb]

theorem drops_fold_snoc (policy : MergePolicy) (branches : List Value) (branch : Value) :
    Drops policy (Leads ⟨[]⟩) (fold policy branches).dropped
      (fold policy (branches ++ [branch])).dropped := by
  cases h : branch.isVacant with
  | true =>
    rw [fold_snoc_of_isVacant branches h]
    exact .refl
  | false =>
    rw [fold_snoc branches h]
    exact drops_mergeValue ..

/-- What is dropped stays dropped, and only more can follow. -/
theorem drops_fold_append (policy : MergePolicy) (front later : List Value) :
    Drops policy (Leads ⟨[]⟩) (fold policy front).dropped
      (fold policy (front ++ later)).dropped := by
  induction later using List.reverseRecOn with
  | nil =>
    rw [List.append_nil]
    exact .refl
  | append_singleton later branch ih =>
    rw [← List.append_assoc]
    exact ih.trans (drops_fold_snoc ..)

theorem drops_fold (policy : MergePolicy) (branches : List Value) :
    Drops policy (Leads ⟨[]⟩) [] (fold policy branches).dropped :=
  drops_fold_append policy [] branches

theorem distinct_fold (policy : MergePolicy) {branches : List Value}
    (h : ∀ b ∈ branches, b.Distinct) : (fold policy branches).value.Distinct := by
  induction branches using List.reverseRecOn with
  | nil => exact .scalar rfl
  | append_singleton branches branch ih =>
    obtain ⟨hfront, hbranch⟩ := List.forall_mem_append.mp h
    cases hvacant : branch.isVacant with
    | true =>
      rw [fold_snoc_of_isVacant branches hvacant]
      exact ih hfront
    | false =>
      rw [fold_snoc branches hvacant]
      exact distinct_mergeValue _ _ _ (ih hfront) (hbranch _ List.mem_cons_self)

theorem combine_eq (hpolicy : policy ≠ .appendArray) (branches : List Value) :
    combine policy branches =
      ((fold policy branches).value, (fold policy branches).dropped.map .collision) := by
  cases policy with
  | appendArray => exact absurd rfl hpolicy
  | lastWins | firstWins | error => rfl

end Remap.Run.Merge
