import Remap.Proofs.Run.Merge

/-!
# Dropped places

Where a collision is reported, its place is dropped. Nothing is left there, and no later branch is
merged into it. But a place at which everything has been dropped is vacant, and a branch that finds
a vacant place is taken whole, with what it has at the dropped places inside (`combine_collisions`).
-/

namespace Remap.Run.Merge

variable {p child : TargetPath} {before after dropped : List TargetPath} {existing value w : Value}
  {fields : Entries Value} {entry merged : Option Value} {name : String} {names : List String}
  {branches : List Value}

/-- No place above the one that names lead to has been dropped since. -/
def Spared (p : TargetPath) (before after : List TargetPath) (names : List String) : Prop :=
  ∀ above, above <+: names → above ≠ names → below p above ∈ after → below p above ∈ before

/-- Some place above the one that names lead to is vacant, and none above that is dropped. -/
inductive Vacated (dropped : List TargetPath) :
    TargetPath → Option Value → List String → Prop where
  | here {p : TargetPath} {entry : Option Value} {name : String} {names : List String} :
      p ∉ dropped → (entry.getD .null).isVacant = true → Vacated dropped p entry (name :: names)
  | under {p : TargetPath} {fields : Entries Value} {name : String} {names : List String} :
      p ∉ dropped → Vacated dropped (key p name) (fields.get? name) names →
        Vacated dropped p (some (.object fields)) (name :: names)

namespace Spared

theorem refl : Spared p before before names := fun _ _ _ h => h

theorem congr {before' after' : List TargetPath}
    (h : ∀ q, Leads p q → (q ∈ before' ↔ q ∈ before) ∧ (q ∈ after ↔ q ∈ after')) :
    Spared p before' after' names ↔ Spared p before after names := by
  refine forall_congr' fun above => forall_congr' fun _ => forall_congr' fun _ => ?_
  obtain ⟨hbefore, hafter⟩ := h (below p above) ⟨above, rfl⟩
  rw [hbefore, hafter]

/-- A place that is not dropped itself leaves it to the next one. -/
theorem cons_iff (hafter : p ∉ after) :
    Spared p before after (name :: names) ↔ Spared (key p name) before after names := by
  constructor
  · intro h above hprefix hne hmem
    rw [below_key] at hmem ⊢
    exact h _ (List.prefix_cons_inj name |>.mpr hprefix) (fun heq => hne (List.cons.inj heq).2) hmem
  · intro h above hprefix hne hmem
    rcases List.prefix_cons_iff.mp hprefix with rfl | ⟨rest, rfl, hprefix⟩
    · rw [below_nil] at hmem
      exact absurd hmem hafter
    · rw [← below_key] at hmem ⊢
      have hrest : rest <+: names := (List.prefix_cons_inj name).mp hprefix
      exact h rest hrest (fun heq => hne (heq ▸ rfl)) hmem

/-- What has been dropped since is what was dropped first and what was dropped then. -/
theorem trans_iff {later : List TargetPath} (h : before ⊆ after) (h' : after ⊆ later) :
    Spared p before later names ↔ Spared p before after names ∧ Spared p after later names := by
  constructor
  · intro hspared
    exact ⟨fun above hprefix hne hmem => hspared above hprefix hne (h' hmem),
      fun above hprefix hne hmem => h (hspared above hprefix hne hmem)⟩
  · rintro ⟨hfirst, hthen⟩ above hprefix hne hmem
    exact hfirst above hprefix hne (hthen above hprefix hne hmem)

end Spared

namespace Vacated

theorem notMem (h : Vacated dropped p entry names) : p ∉ dropped := by
  cases h with
  | here hp | under hp => exact hp

theorem congr {dropped' : List TargetPath} (hsame : ∀ q, Leads p q → (q ∈ dropped' ↔ q ∈ dropped))
    (h : Vacated dropped p entry names) : Vacated dropped' p entry names := by
  induction h with
  | here hp hvacant => exact .here (mt (hsame _ (.refl _)).mp hp) hvacant
  | under hp _ ih =>
    exact .under (mt (hsame _ (.refl _)).mp hp) (ih fun q hq => hsame q hq.of_key)

/-- What is in an object that is not vacant is vacant only under one of its names. -/
theorem object_iff (hfull : fields ≠ []) (hp : p ∉ dropped) :
    Vacated dropped p (some (.object fields)) (name :: names) ↔
      Vacated dropped (key p name) (fields.get? name) names := by
  constructor
  · intro h
    cases h with
    | here _ hvacant =>
      rcases Value.isVacant_iff.mp hvacant with heq | heq
      · cases heq
      · exact absurd (Value.object.inj heq) hfull
    | under _ h => exact h
  · exact .under hp

/-- Where two values clash, nothing is taken from the one that comes in. -/
theorem not_clash {incoming : Value} (hfull : existing.isVacant = false)
    (hboth : bothObjects existing incoming = false) (h : Vacated dropped p (some existing) names) :
    incoming.find? (names.map .key) ≠ some w := by
  cases h with
  | here _ hvacant => exact absurd (hfull.symm.trans hvacant) Bool.false_ne_true
  | under =>
    cases incoming with
    | object => cases hboth
    | null | bool | number | string | array => nofun

end Vacated

/-! ## One branch -/

theorem find?_cons (fields : Entries Value) (name : String) (names : List String) :
    Value.find? ((name :: names).map .key) (.object fields) =
      (fields.get? name).bind (Value.find? (names.map .key)) := rfl

theorem not_leadsVia_self : ¬LeadsVia p names p := by
  rintro ⟨name, -, rest, heq⟩
  rw [below_key] at heq
  have hnil : below p [] = below p (name :: rest) := (below_nil p).trans heq
  exact absurd (below_inj.mp hnil) (List.cons_ne_nil _ _).symm

/-- What there is at a place after a value has come in is what was there, unless a place above has
been dropped, or it is in the value that came in, and that was taken whole. -/
def Accounts (p : TargetPath) (before after : List TargetPath) (entry merged : Option Value)
    (incoming : Value) (names : List String) : Prop :=
  ∀ w, merged.bind (Value.find? (names.map .key)) = some w ↔
    entry.bind (Value.find? (names.map .key)) = some w ∧ Spared p before after names ∨
      Vacated before p entry names ∧ incoming.find? (names.map .key) = some w

theorem Accounts.closed (h : p ∈ dropped) (incoming : Value) :
    Accounts p dropped dropped entry entry incoming names := by
  intro w
  constructor
  · exact fun hw => .inl ⟨hw, .refl⟩
  · rintro (⟨hw, -⟩ | ⟨hvacated, -⟩)
    · exact hw
    · exact absurd h hvacated.notMem

theorem Accounts.vacant (h : p ∉ dropped) (hvacant : (entry.getD .null).isVacant = true)
    (incoming : Value) : Accounts p dropped dropped entry (some incoming) incoming (name :: names) := by
  intro w
  constructor
  · exact fun hw => .inr ⟨.here h hvacant, hw⟩
  · rintro (⟨hw, -⟩ | ⟨-, hw⟩)
    · obtain ⟨v, rfl, hv⟩ := Option.bind_eq_some_iff.mp hw
      rcases Value.isVacant_iff.mp hvacant with rfl | rfl <;> cases hv
    · exact hw

/-- A clash leaves nothing, and is at the place itself. -/
theorem Accounts.clash {incoming : Value} (h : p ∉ before)
    (hafter : p ∈ after) (hfull : existing.isVacant = false)
    (hboth : bothObjects existing incoming = false)
    (hnone : merged.bind (Value.find? ((name :: names).map .key)) = none) :
    Accounts p before after (some existing) merged incoming (name :: names) := by
  intro w
  rw [hnone]
  constructor
  · nofun
  · rintro (⟨-, hspared⟩ | ⟨hvacated, hw⟩)
    · have hp := hspared [] List.nil_prefix (List.cons_ne_nil _ _).symm
      rw [below_nil] at hp
      exact absurd (hp hafter) h
    · exact absurd hw (hvacated.not_clash hfull hboth)

/-- What holds of an entry holds of its object. -/
theorem Accounts.of_entry {before' after' : List TargetPath} {others both : Entries Value}
    (h : Accounts (key p name) before' after' (fields.get? name) (both.get? name) value names)
    (hplaces : ∀ q, Leads (key p name) q → (q ∈ before' ↔ q ∈ before) ∧ (q ∈ after ↔ q ∈ after'))
    (hfull : fields ≠ []) (hbefore : p ∉ before) (hafter : p ∉ after)
    (hvalue : others.get? name = some value) :
    Accounts p before after (some (.object fields)) (some (.object both)) (.object others)
      (name :: names) := by
  intro w
  have hothers : Value.find? ((name :: names).map .key) (.object others) =
      value.find? (names.map .key) := by
    rw [find?_cons, hvalue, Option.bind_some]
  have hvacated : Vacated before' (key p name) (fields.get? name) names ↔
      Vacated before (key p name) (fields.get? name) names :=
    ⟨.congr fun q hq => (hplaces q hq).1.symm, .congr fun q hq => (hplaces q hq).1⟩
  rw [Spared.cons_iff hafter, Vacated.object_iff hfull hbefore, hothers, ← hvacated,
    ← Spared.congr hplaces]
  exact h w

/-- What holds of an entry that no other comes in for. -/
theorem Accounts.of_get?_eq_none {others both : Entries Value} (hget : others.get? name = none)
    (hsame : both.get? name = fields.get? name)
    (hspared : Spared p before after (name :: names)) :
    Accounts p before after (some (.object fields)) (some (.object both)) (.object others)
      (name :: names) := by
  intro w
  have hfind : Value.find? ((name :: names).map .key) (.object both) =
      Value.find? ((name :: names).map .key) (.object fields) := by
    rw [find?_cons, hsame, find?_cons]
  have hnone : Value.find? ((name :: names).map .key) (.object others) = none := by
    rw [find?_cons, hget, Option.bind_none]
  rw [Option.bind_some, Option.bind_some, hfind, hnone]
  constructor
  · exact fun hw => .inl ⟨hw, hspared⟩
  · rintro (⟨hw, -⟩ | ⟨-, hw⟩)
    · exact hw
    · cases hw

theorem Enters.accounts_of (h : Enters .error child before value entry merged after)
    (hdropped : below child names ∈ before)
    (hvalue : ∀ existing : Value, existing ∈ entry →
      Accounts child before (mergeValue .error child existing before value).dropped (some existing)
        (some (mergeValue .error child existing before value).value) value names) :
    Accounts child before after entry merged value names := by
  cases h with
  | closed hmem => exact .closed hmem value
  | merged => exact hvalue _ rfl
  | new hnew =>
    cases names with
    | nil => exact absurd (below_nil child ▸ hdropped) hnew
    | cons => exact .vacant hnew rfl value
  | collides hnew _ hfull hboth =>
    cases names with
    | nil => exact absurd (below_nil child ▸ hdropped) hnew
    | cons => exact .clash hnew (List.mem_append_right _ (List.mem_singleton.mpr rfl)) hfull hboth rfl

/-- What a merge leaves at a place that had been dropped before. -/
theorem accounts_mergeValue {incoming : Value} (hexisting : existing.Distinct)
    (hincoming : incoming.Distinct) (hdropped : below p names ∈ dropped) :
    Accounts p dropped (mergeValue .error p existing dropped incoming).dropped (some existing)
      (some (mergeValue .error p existing dropped incoming).value) incoming names := by
  induction incoming using Value.induct_fields generalizing p dropped existing names with
  | step incoming ih =>
    cases names with
    | nil =>
      rw [below_nil] at hdropped
      rw [mergeValue_of_mem hdropped]
      exact .closed hdropped incoming
    | cons name names =>
      cases meets p dropped existing incoming with
      | closed h =>
        rw [mergeValue_of_mem h]
        exact .closed h incoming
      | vacant h hvacant =>
        rw [mergeValue_of_isVacant h hvacant]
        have hentry : ((some existing).getD .null).isVacant = true := hvacant
        exact .vacant h hentry incoming
      | clash h hfull hboth =>
        rw [mergeValue_clash h hfull hboth]
        exact .clash h (List.mem_append_right _ (List.mem_singleton.mpr rfl)) hfull hboth rfl
      | @objects fields others h hfull =>
        rw [mergeValue_objects h hfull]
        have hdrops := drops_mergeFields .error p dropped fields others
        have hafter : p ∉ (mergeFields .error p fields dropped others).dropped :=
          mt (hdrops.mem_iff not_leadsVia_self).mp h
        cases hget : others.get? name with
        | none =>
          refine .of_get?_eq_none hget (get?_mergeFields_of_none hget) ?_
          rw [Spared.cons_iff hafter]
          intro above _ _ hmem
          refine (hdrops.mem_iff ?_).mp hmem
          rintro ⟨other, hother, hleads⟩
          have hname : name = other := Leads.key_unique ⟨above, rfl⟩ hleads
          exact Entries.get?_eq_none_iff.mp hget (hname ▸ hother)
        | some value =>
          obtain ⟨before, after, henters, hplaces⟩ := enters_mergeFields .error p dropped
            hexisting.keys_nodup hincoming.keys_nodup hget
          have hmem := Entries.mem_of_get? hget
          rw [← below_key] at hdropped
          refine .of_entry ?_ hplaces hfull h hafter hget
          have hbelow : below (key p name) names ∈ before := (hplaces _ ⟨names, rfl⟩).1.mpr hdropped
          refine henters.accounts_of hbelow fun old hold => ?_
          exact ih _ rfl _ hmem (hexisting.of_mem_fields (Entries.mem_of_get? hold))
            (hincoming.of_mem_fields hmem) hbelow

theorem Enters.gone_of (h : Enters .error child before value entry merged after)
    (hbefore : below child names ∉ before) (hafter : below child names ∈ after)
    (hvalue : ∀ existing : Value, existing ∈ entry →
      existing.isVacant = true ∨ bothObjects existing value = true →
        below child names ∈ (mergeValue .error child existing before value).dropped →
          (mergeValue .error child existing before value).value.find? (names.map .key) = none) :
    merged.bind (Value.find? (names.map .key)) = none := by
  cases h with
  | closed | new => exact absurd hafter hbefore
  | collides => rfl
  | merged _ hopen => exact hvalue _ rfl (hopen rfl) hafter

/-- A merge leaves nothing at the places that it drops, except for the `null` that two values which
clash leave at their own. -/
theorem gone_mergeValue {incoming : Value} (hexisting : existing.Distinct)
    (hincoming : incoming.Distinct)
    (hopen : names = [] → existing.isVacant = true ∨ bothObjects existing incoming = true)
    (hbefore : below p names ∉ dropped)
    (hafter : below p names ∈ (mergeValue .error p existing dropped incoming).dropped) :
    (mergeValue .error p existing dropped incoming).value.find? (names.map .key) = none := by
  induction incoming using Value.induct_fields generalizing p dropped existing names with
  | step incoming ih =>
    cases meets p dropped existing incoming with
    | closed h =>
      rw [mergeValue_of_mem h] at hafter
      exact absurd hafter hbefore
    | vacant h hvacant =>
      rw [mergeValue_of_isVacant h hvacant] at hafter
      exact absurd hafter hbefore
    | clash h hfull hboth =>
      rw [mergeValue_clash h hfull hboth] at hafter
      have hself := List.mem_singleton.mp ((List.mem_append.mp hafter).resolve_left hbefore)
      have hnames : names = [] := below_inj.mp (hself.trans (below_nil p).symm)
      rcases hopen hnames with hvacant | hobjects
      · exact absurd (hfull.symm.trans hvacant) Bool.false_ne_true
      · exact absurd (hboth.symm.trans hobjects) Bool.false_ne_true
    | @objects fields others h hfull =>
      rw [mergeValue_objects h hfull] at hafter ⊢
      have hdrops := drops_mergeFields .error p dropped fields others
      obtain ⟨-, name, hname, rest, heq⟩ := hdrops.new _ hafter hbefore
      rw [below_key, below_inj] at heq
      subst heq
      obtain ⟨value, hget⟩ := Entries.get?_of_mem_keys hname
      obtain ⟨inner, later, henters, hplaces⟩ := enters_mergeFields .error p dropped
        hexisting.keys_nodup hincoming.keys_nodup hget
      have hmem := Entries.mem_of_get? hget
      obtain ⟨hinner, hlater⟩ := hplaces (below (key p name) rest) ⟨rest, rfl⟩
      rw [← below_key] at hbefore hafter
      rw [find?_cons]
      refine henters.gone_of (mt hinner.mp hbefore) (hlater.mp hafter) fun old hold hopen => ?_
      exact ih _ rfl _ hmem (hexisting.of_mem_fields (Entries.mem_of_get? hold))
        (hincoming.of_mem_fields hmem) (fun _ => hopen) (mt hinner.mp hbefore)

/-! ## Branch by branch -/

section Fold

variable {branch : Value}

theorem accounts_fold_snoc (hdistinct : ∀ b ∈ branches ++ [branch], b.Distinct)
    (hdropped : below ⟨[]⟩ (name :: names) ∈ (fold .error branches).dropped) :
    Accounts ⟨[]⟩ (fold .error branches).dropped (fold .error (branches ++ [branch])).dropped
      (some (fold .error branches).value) (some (fold .error (branches ++ [branch])).value) branch
      (name :: names) := by
  obtain ⟨hfront, hbranch⟩ := List.forall_mem_append.mp hdistinct
  cases hvacant : branch.isVacant with
  | true =>
    rw [fold_snoc_of_isVacant branches hvacant]
    intro w
    constructor
    · exact fun hw => .inl ⟨hw, .refl⟩
    · rintro (⟨hw, -⟩ | ⟨-, hw⟩)
      · exact hw
      · rcases Value.isVacant_iff.mp hvacant with rfl | rfl <;> cases hw
  | false =>
    rw [fold_snoc branches hvacant]
    exact accounts_mergeValue (distinct_fold _ hfront) (hbranch _ List.mem_cons_self) hdropped

/-- A branch that collides leaves nothing where it does. -/
theorem gone_fold_snoc (hdistinct : ∀ b ∈ branches ++ [branch], b.Distinct)
    (hbefore : below ⟨[]⟩ (name :: names) ∉ (fold .error branches).dropped)
    (hafter : below ⟨[]⟩ (name :: names) ∈ (fold .error (branches ++ [branch])).dropped) :
    (fold .error (branches ++ [branch])).value.find? ((name :: names).map .key) = none := by
  obtain ⟨hfront, hbranch⟩ := List.forall_mem_append.mp hdistinct
  cases hvacant : branch.isVacant with
  | true =>
    rw [fold_snoc_of_isVacant branches hvacant] at hafter
    exact absurd hafter hbefore
  | false =>
    rw [fold_snoc branches hvacant] at hafter ⊢
    exact gone_mergeValue (distinct_fold .error hfront) (hbranch _ List.mem_cons_self) nofun hbefore
      hafter

/-- Nothing comes in at the root once it is dropped. -/
theorem value_of_root_dropped (h : ⟨[]⟩ ∈ (fold .error branches).dropped) :
    (fold .error branches).value = .null := by
  induction branches using List.reverseRecOn with
  | nil => rfl
  | append_singleton branches branch ih =>
    cases hvacant : branch.isVacant with
    | true =>
      rw [fold_snoc_of_isVacant branches hvacant] at h ⊢
      exact ih h
    | false =>
      rw [fold_snoc branches hvacant] at h ⊢
      rw [absorb] at h ⊢
      generalize fold .error branches = st at h ih ⊢
      obtain ⟨value, dropped⟩ := st
      cases meets ⟨[]⟩ dropped value branch with
      | closed hmem =>
        rw [mergeValue_of_mem hmem]
        exact ih hmem
      | vacant hnew hempty =>
        rw [mergeValue_of_isVacant hnew hempty] at h
        exact absurd h hnew
      | objects hnew hfull =>
        rw [mergeValue_objects hnew hfull] at h
        exact absurd (((drops_mergeFields ..).mem_iff not_leadsVia_self).mp h) hnew
      | clash hnew hfull hboth => rw [mergeValue_clash hnew hfull hboth, settle]

/-- What some branch has at a dropped place, where it is taken whole: it comes after the place has
been dropped, it finds a place above vacant, and no place above is dropped from there on. -/
def Refilled (branches : List Value) (names : List String) (w : Value) : Prop :=
  ∃ front branch later, branches = front ++ branch :: later ∧
    below ⟨[]⟩ names ∈ (fold .error front).dropped ∧
    Vacated (fold .error front).dropped ⟨[]⟩ (some (fold .error front).value) names ∧
    branch.find? (names.map .key) = some w ∧
    Spared ⟨[]⟩ (fold .error (front ++ [branch])).dropped (fold .error branches).dropped names

theorem Refilled.mem_dropped (h : Refilled branches names w) :
    below ⟨[]⟩ names ∈ (fold .error branches).dropped := by
  obtain ⟨front, branch, later, rfl, hdropped, -⟩ := h
  exact (drops_fold_append .error front (branch :: later)).isPrefix.subset hdropped

theorem refilled_snoc_iff :
    Refilled (branches ++ [branch]) names w ↔
      Refilled branches names w ∧ Spared ⟨[]⟩ (fold .error branches).dropped
        (fold .error (branches ++ [branch])).dropped names ∨
      below ⟨[]⟩ names ∈ (fold .error branches).dropped ∧
        Vacated (fold .error branches).dropped ⟨[]⟩ (some (fold .error branches).value) names ∧
        branch.find? (names.map .key) = some w := by
  constructor
  · rintro ⟨front, first, later, heq, hdropped, hvacated, hw, hspared⟩
    rcases List.eq_nil_or_concat' later with rfl | ⟨later, last, rfl⟩
    · obtain ⟨rfl, hlast⟩ := List.append_inj' heq rfl
      cases hlast
      exact .inr ⟨hdropped, hvacated, hw⟩
    · rw [← List.cons_append, ← List.append_assoc] at heq
      obtain ⟨rfl, hlast⟩ := List.append_inj' heq rfl
      have hfront := drops_fold_append .error (front ++ [first]) later
      rw [← List.append_cons] at hfront
      have hlater := drops_fold_snoc .error (front ++ first :: later) branch
      rw [Spared.trans_iff hfront.isPrefix.subset hlater.isPrefix.subset] at hspared
      exact .inl ⟨⟨front, first, later, rfl, hdropped, hvacated, hw, hspared.1⟩, hspared.2⟩
  · rintro (⟨⟨front, first, later, rfl, hdropped, hvacated, hw, hfirst⟩, hlast⟩ |
      ⟨hdropped, hvacated, hw⟩)
    · have hfront := drops_fold_append .error (front ++ [first]) later
      rw [← List.append_cons] at hfront
      have hlater := drops_fold_snoc .error (front ++ first :: later) branch
      refine ⟨front, first, later ++ [branch], by simp, hdropped, hvacated, hw, ?_⟩
      rw [Spared.trans_iff hfront.isPrefix.subset hlater.isPrefix.subset]
      exact ⟨hfirst, hlast⟩
    · exact ⟨branches, branch, [], rfl, hdropped, hvacated, hw, .refl⟩

/-- What there is at a dropped place below the root has been put there again. -/
theorem find?_fold_iff (hdistinct : ∀ b ∈ branches, b.Distinct)
    (hdropped : below ⟨[]⟩ (name :: names) ∈ (fold .error branches).dropped) :
    (fold .error branches).value.find? ((name :: names).map .key) = some w ↔
      Refilled branches (name :: names) w := by
  induction branches using List.reverseRecOn with
  | nil => cases hdropped
  | append_singleton branches branch ih =>
    by_cases hbefore : below ⟨[]⟩ (name :: names) ∈ (fold .error branches).dropped
    · have hfront := (List.forall_mem_append.mp hdistinct).1
      rw [refilled_snoc_iff, ← ih hfront hbefore]
      refine (accounts_fold_snoc hdistinct hbefore w).trans (or_congr Iff.rfl ?_)
      exact (and_iff_right hbefore).symm
    · rw [gone_fold_snoc hdistinct hbefore hdropped]
      constructor
      · nofun
      · intro h
        rcases refilled_snoc_iff.mp h with ⟨hfront, -⟩ | ⟨hfront, -⟩
        · exact absurd hfront.mem_dropped hbefore
        · exact absurd hfront hbefore

end Fold

/-- **A dropped place can come back.** No collision is reported twice. A collision at the root leaves
`null`. At any other place where one is reported, the combined value has just what has been put
there again by a branch that was taken whole at a vacant place above. -/
theorem combine_collisions {branches : List Value} (hdistinct : ∀ b ∈ branches, b.Distinct) :
    (combine .error branches).2.Nodup ∧
    ∀ fault ∈ (combine .error branches).2, ∃ names, fault = .collision ⟨names.map .key⟩ ∧
      (names = [] → (combine .error branches).1 = .null) ∧
      (names ≠ [] → ∀ w, (combine .error branches).1.find? (names.map .key) = some w ↔
        Refilled branches names w) := by
  have hpolicy : MergePolicy.error ≠ .appendArray := nofun
  rw [combine_eq hpolicy]
  have hdrops := drops_fold .error branches
  constructor
  · exact (hdrops.nodup .nil).map fun _ _ => MergeFault.collision.inj
  · intro fault hfault
    obtain ⟨q, hq, rfl⟩ := List.mem_map.mp hfault
    obtain ⟨names, rfl⟩ := (hdrops.new q hq List.not_mem_nil).2
    refine ⟨names, rfl, ?_, ?_⟩
    · rintro rfl
      exact value_of_root_dropped hq
    · intro hne w
      cases names with
      | nil => exact absurd rfl hne
      | cons name names => exact find?_fold_iff hdistinct hq

/-- An item with a price, and nothing else. -/
def priced (price : String) : Value := .object [("item", .object [("price", .string price)])]

theorem distinct_priced (price : String) : (priced price).Distinct :=
  .single (.single (.scalar rfl))

/-- Branches that price the same item. -/
def repriced : List Value := ["2", "3", "4"].map priced

/-- Two prices collide, and a third branch finds the item with nothing in it. -/
theorem combine_collisions_repriced :
    (∀ b ∈ repriced, b.Distinct) ∧
      (combine .error repriced).2 = [.collision ⟨[.key "item", .key "price"]⟩] ∧
      Refilled repriced ["item", "price"] (.string "4") := by
  have hdistinct : ∀ b ∈ repriced, b.Distinct :=
    List.forall_mem_map.mpr fun price _ => distinct_priced price
  obtain ⟨-, hfaults⟩ := combine_collisions hdistinct
  obtain ⟨names, heq, -, hiff⟩ := hfaults _ List.mem_cons_self
  have hbelow : below ⟨[]⟩ ["item", "price"] = below ⟨[]⟩ names := MergeFault.collision.inj heq
  cases below_inj.mp hbelow
  exact ⟨hdistinct, rfl, (hiff nofun _).mp rfl⟩

/-- Where the one key there is collides, the next branch brings it in again. -/
theorem combine_collisions_again :
    combine .error [.object [("a", .string "x")], .object [("a", .string "y")],
        .object [("a", .string "z")]] =
      (.object [("a", .string "z")], [.collision ⟨[.key "a"]⟩]) := by
  rfl

end Remap.Run.Merge
