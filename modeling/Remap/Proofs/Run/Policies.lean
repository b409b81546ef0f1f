import Remap.Proofs.Lists
import Remap.Proofs.Run.Merge

/-!
# Policies

Policies differ only where branches collide: without a collision they all make the same of the
branches (`combine_agree`). Where they do collide, the last or the first branch wins as it is, and
nothing is made up (`combine_wins`).
-/

namespace Remap.Value

/-- The names that an object has at its top; other values have none. -/
def keys : Value → List String
  | object fields => Entries.keys fields
  | _ => []

theorem keys_of_isVacant {v : Value} (h : v.isVacant = true) : v.keys = [] := by
  rcases isVacant_iff.mp h with rfl | rfl <;> rfl

end Remap.Value

namespace Remap.Run.Merge

variable {policy : MergePolicy} {p : TargetPath} {dropped before after : List TargetPath}
  {value : Value} {fields : Entries Value} {name : String}

/-! ## Without collisions -/

theorem mergeFields_agree_of {others : Entries Value}
    (hvalues : ∀ e ∈ others, ∀ (p : TargetPath) (existing : Value),
      (mergeValue .error p existing [] e.2).dropped = [] →
        mergeValue policy p existing [] e.2 = mergeValue .error p existing [] e.2)
    (h : (mergeFields .error p fields [] others).dropped = []) :
    mergeFields policy p fields [] others = mergeFields .error p fields [] others := by
  induction others generalizing fields with
  | nil => rw [mergeFields, mergeFields]
  | cons e rest ih =>
    obtain ⟨name, value⟩ := e
    obtain ⟨hvalue, hrest⟩ := List.forall_mem_cons.mp hvalues
    obtain ⟨entry, after, henters, heq⟩ := mergeFields_cons .error p fields [] name value rest
    rw [heq] at h
    have hafter : after = [] :=
      List.prefix_nil.mp (h ▸ (drops_mergeFields .error p after _ rest).isPrefix)
    generalize hget : fields.get? name = found at henters
    cases henters with
    | closed hmem => cases hmem
    | new hnew =>
      rw [mergeFields_of_none hnew hget, mergeFields_of_none hnew hget]
      exact ih hrest h
    | collides => exact absurd hafter (List.cons_ne_nil _ _)
    | merged hnew hopen =>
      have hsame := hvalue _ _ hafter
      rw [mergeFields_of_some hnew hget hopen, mergeFields_of_some hnew hget fun _ => hopen rfl,
        hsame, hafter]
      rw [hafter] at h
      exact ih hrest h

/-- Where nothing is dropped, a merge is the same under all policies. -/
theorem mergeValue_agree (policy : MergePolicy) (p : TargetPath) (existing : Value)
    {incoming : Value} (h : (mergeValue .error p existing [] incoming).dropped = []) :
    mergeValue policy p existing [] incoming = mergeValue .error p existing [] incoming := by
  induction incoming using Value.induct_fields generalizing p existing with
  | step incoming ih =>
    cases meets p [] existing incoming with
    | closed hmem => cases hmem
    | vacant hnew hvacant =>
      rw [mergeValue_of_isVacant hnew hvacant, mergeValue_of_isVacant hnew hvacant]
    | objects hnew hfull =>
      rw [mergeValue_objects hnew hfull] at h ⊢
      rw [mergeValue_objects hnew hfull,
        mergeFields_agree_of (fun e he p existing => ih _ rfl e he p existing) h]
    | clash hnew hfull hboth =>
      rw [mergeValue_clash hnew hfull hboth] at h
      exact absurd h (List.cons_ne_nil _ _)

/-- **Without a collision** under the one policy that reports them, branches are combined into the
same value under that policy and under those that let the first or the last branch win, and nothing
is reported. -/
theorem combine_agree (branches : List Value)
    (h : ∀ p, .collision p ∉ (combine .error branches).2) :
    ∃ value, ∀ policy, policy ≠ .appendArray → combine policy branches = (value, []) := by
  have hdropped : (fold .error branches).dropped = [] := by
    have hpolicy : MergePolicy.error ≠ .appendArray := nofun
    refine List.eq_nil_iff_forall_not_mem.mpr fun q hq => h q ?_
    rw [combine_eq hpolicy]
    exact List.mem_map_of_mem hq
  refine ⟨(fold .error branches).value, fun policy hpolicy => ?_⟩
  have hfold : fold policy branches = fold .error branches := by
    clear h
    induction branches using List.reverseRecOn with
    | nil => rfl
    | append_singleton branches branch ih =>
      have hfront : (fold .error branches).dropped = [] :=
        List.prefix_nil.mp (hdropped ▸ (drops_fold_snoc .error branches branch).isPrefix)
      cases hvacant : branch.isVacant with
      | true =>
        rw [fold_snoc_of_isVacant branches hvacant, fold_snoc_of_isVacant branches hvacant, ih hfront]
      | false =>
        rw [fold_snoc branches hvacant] at hdropped ⊢
        rw [fold_snoc branches hvacant, ih hfront]
        rw [absorb, hfront] at hdropped ⊢
        rw [absorb, hfront]
        exact mergeValue_agree policy _ _ hdropped
  rw [combine_eq hpolicy, hfold, hdropped]
  rfl

/-- Parts of an item that share no slot. -/
def itemParts : List Value :=
  [.object [("item", .object [("name", .string "pen"), ("price", .null)])], .null,
    .object [("tags", .object []), ("item", .object [("price", .string "2")])]]

theorem combine_agree_item :
    (∀ p, .collision p ∉ (combine .error itemParts).2) ∧
      ∀ policy, policy ≠ .appendArray → combine policy itemParts =
        (.object [("item", .object [("name", .string "pen"), ("price", .string "2")]),
          ("tags", .object [])], []) := by
  have hclean : ∀ p, .collision p ∉ (combine .error itemParts).2 := fun _ => List.not_mem_nil
  obtain ⟨value, hvalue⟩ := combine_agree itemParts hclean
  have hpolicy : MergePolicy.error ≠ .appendArray := nofun
  refine ⟨hclean, fun policy hother => ?_⟩
  rw [hvalue policy hother, ← hvalue .error hpolicy]
  rfl

/-! ## The winner -/

/-- What is no object is found in an object under one of its keys. -/
theorem exists_key_of_find? {w : Value} {place : List Segment} (hkind : w.kind ≠ .object)
    (hw : (Value.object fields).find? place = some w) :
    ∃ name rest value, place = .key name :: rest ∧ fields.get? name = some value ∧
      value.find? rest = some w := by
  cases place with
  | nil =>
    cases hw
    exact absurd rfl hkind
  | cons segment rest =>
    cases segment with
    | index | wildcard => cases hw
    | key name =>
      obtain ⟨value, hvalue, hrest⟩ := Option.bind_eq_some_iff.mp hw
      exact ⟨name, rest, value, rfl, hvalue, hrest⟩

/-- Whether nothing has been dropped at a place or below. -/
def Open (p : TargetPath) (dropped : List TargetPath) : Prop := ∀ q, Leads p q → q ∉ dropped

theorem Open.nil (p : TargetPath) : Open p [] := fun _ _ => List.not_mem_nil

theorem Open.of_drops {may : TargetPath → Prop} (h : Open p before) (hpolicy : policy ≠ .error)
    (hdrops : Drops policy may before after) : Open p after :=
  fun q hq hmem => hpolicy (hdrops.new q hmem (h q hq)).1

/-- A policy that reports no collision sets an entry to what comes in, or to what that is merged
into. -/
theorem get?_mergeFields_of_some {others : Entries Value} (hpolicy : policy ≠ .error)
    (hopen : Open p dropped) (hfields : fields.keys.Nodup) (hothers : others.keys.Nodup)
    (h : others.get? name = some value) :
    (fields.get? name = none ∧
      Entries.get? name (mergeFields policy p fields dropped others).fields = some value) ∨
    ∃ existing before, fields.get? name = some existing ∧ Open (key p name) before ∧
      Entries.get? name (mergeFields policy p fields dropped others).fields =
        some (mergeValue policy (key p name) existing before value).value := by
  obtain ⟨before, after, henters, hplaces⟩ :=
    enters_mergeFields policy p dropped hfields hothers h
  have hbefore : Open (key p name) before := fun q hq hmem =>
    hopen q hq.of_key ((hplaces q hq).1.mp hmem)
  generalize hget : fields.get? name = found at henters
  generalize Entries.get? name (mergeFields policy p fields dropped others).fields = result at henters ⊢
  cases henters with
  | closed hmem => exact absurd hmem (hbefore _ (.refl _))
  | new => exact .inl ⟨rfl, rfl⟩
  | collides _ herror => exact absurd herror hpolicy
  | merged => exact .inr ⟨_, before, rfl, hbefore, rfl⟩

/-- The value that comes in last stays wherever it is no object. -/
theorem find?_mergeValue_lastWins {existing incoming w : Value} {place : List Segment}
    (hopen : Open p dropped) (hexisting : existing.Distinct) (hincoming : incoming.Distinct)
    (hkind : w.kind ≠ .object) (hw : incoming.find? place = some w) :
    (mergeValue .lastWins p existing dropped incoming).value.find? place = some w := by
  induction incoming using Value.induct_fields generalizing p dropped existing place with
  | step incoming ih =>
    cases meets p dropped existing incoming with
    | closed hmem => exact absurd hmem (hopen _ (.refl p))
    | vacant hnew hvacant => rwa [mergeValue_of_isVacant hnew hvacant]
    | clash hnew hfull hboth => rwa [mergeValue_clash hnew hfull hboth]
    | objects hnew hfull =>
      obtain ⟨name, rest, value, rfl, hvalue, hrest⟩ := exists_key_of_find? hkind hw
      have hpolicy : MergePolicy.lastWins ≠ .error := nofun
      have hmem := Entries.mem_of_get? hvalue
      rw [mergeValue_objects hnew hfull]
      apply Option.bind_eq_some_iff.mpr
      rcases get?_mergeFields_of_some hpolicy hopen hexisting.keys_nodup hincoming.keys_nodup
        hvalue with ⟨-, hget⟩ | ⟨old, before, hold, hbefore, hget⟩
      · exact ⟨_, hget, hrest⟩
      · have hdistinct := hexisting.of_mem_fields (Entries.mem_of_get? hold)
        exact ⟨_, hget, ih _ rfl _ hmem hbefore hdistinct (hincoming.of_mem_fields hmem) hrest⟩

/-- The value that is there first stays wherever it is neither an object nor `null`. -/
theorem find?_mergeValue_firstWins {existing incoming w : Value} {place : List Segment}
    (hopen : Open p dropped) (hexisting : existing.Distinct) (hincoming : incoming.Distinct)
    (hkind : w.kind ≠ .object) (hnull : w ≠ .null) (hw : existing.find? place = some w) :
    (mergeValue .firstWins p existing dropped incoming).value.find? place = some w := by
  induction incoming using Value.induct_fields generalizing p dropped existing place with
  | step incoming ih =>
    cases meets p dropped existing incoming with
    | closed hmem => exact absurd hmem (hopen _ (.refl p))
    | vacant hnew hvacant =>
      cases place with
      | nil =>
        cases hw
        rcases Value.isVacant_iff.mp hvacant with rfl | rfl
        · exact absurd rfl hnull
        · exact absurd rfl hkind
      | cons segment rest =>
        rcases Value.isVacant_iff.mp hvacant with rfl | rfl <;> cases segment <;> cases hw
    | clash hnew hfull hboth => rwa [mergeValue_clash hnew hfull hboth]
    | @objects fields others hnew hfull =>
      obtain ⟨name, rest, old, rfl, hold, hrest⟩ := exists_key_of_find? hkind hw
      have hpolicy : MergePolicy.firstWins ≠ .error := nofun
      rw [mergeValue_objects hnew hfull]
      apply Option.bind_eq_some_iff.mpr
      cases hvalue : others.get? name with
      | none => exact ⟨old, (get?_mergeFields_of_none hvalue).trans hold, hrest⟩
      | some value =>
        have hmem := Entries.mem_of_get? hvalue
        rcases get?_mergeFields_of_some hpolicy hopen hexisting.keys_nodup hincoming.keys_nodup
          hvalue with ⟨hnone, -⟩ | ⟨found, before, hfound, hbefore, hget⟩
        · rw [hold] at hnone
          cases hnone
        · cases hold.symm.trans hfound
          have hdistinct := hexisting.of_mem_fields (Entries.mem_of_get? hold)
          exact ⟨_, hget, ih _ rfl _ hmem hbefore hdistinct (hincoming.of_mem_fields hmem) hrest⟩

/-- Whatever is no object in a merged value comes from one of the two. -/
theorem find?_of_find?_mergeValue {existing incoming w : Value} {place : List Segment}
    (hpolicy : policy ≠ .error) (hopen : Open p dropped) (hexisting : existing.Distinct)
    (hincoming : incoming.Distinct) (hkind : w.kind ≠ .object)
    (hw : (mergeValue policy p existing dropped incoming).value.find? place = some w) :
    existing.find? place = some w ∨ incoming.find? place = some w := by
  induction incoming using Value.induct_fields generalizing p dropped existing place with
  | step incoming ih =>
    cases meets p dropped existing incoming with
    | closed hmem => exact absurd hmem (hopen _ (.refl p))
    | vacant hnew hvacant =>
      rw [mergeValue_of_isVacant hnew hvacant] at hw
      exact .inr hw
    | clash hnew hfull hboth =>
      rw [mergeValue_clash hnew hfull hboth] at hw
      cases policy with
      | error => exact absurd rfl hpolicy
      | firstWins => exact .inl hw
      | lastWins | appendArray => exact .inr hw
    | @objects fields others hnew hfull =>
      rw [mergeValue_objects hnew hfull] at hw
      obtain ⟨name, rest, both, rfl, hboth, hrest⟩ := exists_key_of_find? hkind hw
      cases hvalue : others.get? name with
      | none =>
        rw [get?_mergeFields_of_none hvalue] at hboth
        exact .inl (Option.bind_eq_some_iff.mpr ⟨both, hboth, hrest⟩)
      | some value =>
        have hmem := Entries.mem_of_get? hvalue
        rcases get?_mergeFields_of_some hpolicy hopen hexisting.keys_nodup hincoming.keys_nodup
          hvalue with ⟨-, hget⟩ | ⟨old, before, hold, hbefore, hget⟩
        · cases hboth.symm.trans hget
          exact .inr (Option.bind_eq_some_iff.mpr ⟨_, hvalue, hrest⟩)
        · cases hboth.symm.trans hget
          have hdistinct := hexisting.of_mem_fields (Entries.mem_of_get? hold)
          refine (ih _ rfl _ hmem hbefore hdistinct (hincoming.of_mem_fields hmem) hrest).imp ?_ ?_
          · exact fun h => Option.bind_eq_some_iff.mpr ⟨old, hold, h⟩
          · exact fun h => Option.bind_eq_some_iff.mpr ⟨value, hvalue, h⟩

/-- The keys of an object stay in their order, and new ones follow in theirs. -/
theorem keys_mergeFields {others : Entries Value} (hpolicy : policy ≠ .error)
    (hopen : Open p dropped) (hothers : others.keys.Nodup) :
    Entries.keys (mergeFields policy p fields dropped others).fields =
      fields.keys ++ others.keys.removeAll fields.keys := by
  induction others generalizing fields dropped with
  | nil => exact (List.append_nil _).symm
  | cons e rest ih =>
    obtain ⟨name, value⟩ := e
    obtain ⟨hname, hrest⟩ := List.nodup_cons.mp hothers
    obtain ⟨entry, after, henters, heq⟩ := mergeFields_cons policy p fields dropped name value rest
    have hafter : Open p after := hopen.of_drops hpolicy henters.drops
    obtain ⟨new, rfl⟩ : ∃ new, entry = some new := by
      generalize fields.get? name = found at henters
      cases henters with
      | closed hmem => exact absurd hmem (hopen _ ⟨[name], rfl⟩)
      | collides _ herror => exact absurd herror hpolicy
      | new | merged => exact ⟨_, rfl⟩
    rw [heq, ih hafter hrest, Entries.assign]
    show _ = fields.keys ++ (name :: Entries.keys rest).removeAll fields.keys
    by_cases hmem : name ∈ fields.keys
    · rw [Entries.keys_put_of_mem new hmem, List.cons_removeAll]
      simp [hmem]
    · have hsame : (Entries.keys rest).removeAll (fields.keys ++ [name]) =
          (Entries.keys rest).removeAll fields.keys := by
        refine List.filter_congr fun other hother => ?_
        have hne : other ≠ name := fun heq => hname (heq ▸ hother)
        simp [hne]
      rw [Entries.keys_put_of_notMem new hmem, hsame, List.cons_removeAll]
      simp [hmem]

/-- Two objects are merged into one. -/
theorem keys_mergeValue {others : Entries Value} (hpolicy : policy ≠ .error) (hopen : Open p dropped)
    (hothers : others.keys.Nodup) :
    ∃ both, (mergeValue policy p (.object fields) dropped (.object others)).value = .object both ∧
      Entries.keys both = fields.keys ++ others.keys.removeAll fields.keys := by
  by_cases hfull : fields = []
  · subst hfull
    rw [mergeValue_of_isVacant (hopen p (.refl p)) rfl]
    exact ⟨others, rfl, List.removeAll_nil.symm⟩
  · rw [mergeValue_objects (hopen p (.refl p)) hfull]
    exact ⟨_, rfl, keys_mergeFields hpolicy hopen hothers⟩

theorem open_fold (hpolicy : policy ≠ .error) (branches : List Value) :
    Open ⟨[]⟩ (fold policy branches).dropped := by
  rw [(drops_fold policy branches).eq_nil hpolicy]
  exact .nil _

theorem fold_append_of_isVacant {vacant : List Value} (branches : List Value)
    (h : ∀ b ∈ vacant, b.isVacant = true) :
    fold policy (branches ++ vacant) = fold policy branches := by
  have hfilter : vacant.filter (fun b => !b.isVacant) = [] :=
    List.filter_eq_nil_iff.mpr fun b hb => by simp [h b hb]
  rw [fold, List.filter_append, hfilter, List.append_nil, fold]

/-- The first branch that wrote something is taken as it is. -/
theorem fold_first {vacant : List Value} {first : Value} (h : ∀ b ∈ vacant, b.isVacant = true)
    (hfirst : first.isVacant = false) : fold policy (vacant ++ [first]) = ⟨first, []⟩ := by
  have hempty : fold policy vacant = ⟨.null, []⟩ := fold_append_of_isVacant [] h
  rw [fold_snoc vacant hfirst, absorb, hempty]
  exact mergeValue_of_isVacant List.not_mem_nil rfl

theorem find?_fold_lastWins {front vacant : List Value} {last w : Value} {place : List Segment}
    (hfront : ∀ b ∈ front, b.Distinct) (hdistinct : last.Distinct) (hlast : last.isVacant = false)
    (hvacant : ∀ b ∈ vacant, b.isVacant = true) (hkind : w.kind ≠ .object)
    (hw : last.find? place = some w) :
    (fold .lastWins (front ++ last :: vacant)).value.find? place = some w := by
  have hpolicy : MergePolicy.lastWins ≠ .error := nofun
  rw [List.append_cons, fold_append_of_isVacant _ hvacant, fold_snoc front hlast]
  exact find?_mergeValue_lastWins (open_fold hpolicy front) (distinct_fold _ hfront) hdistinct hkind
    hw

theorem find?_fold_firstWins {vacant later : List Value} {first w : Value} {place : List Segment}
    (hvacant : ∀ b ∈ vacant, b.isVacant = true) (hfirst : first.isVacant = false)
    (hdistinct : ∀ b ∈ vacant ++ first :: later, b.Distinct) (hkind : w.kind ≠ .object)
    (hnull : w ≠ .null) (hw : first.find? place = some w) :
    (fold .firstWins (vacant ++ first :: later)).value.find? place = some w := by
  induction later using List.reverseRecOn with
  | nil =>
    rw [fold_first hvacant hfirst]
    exact hw
  | append_singleton later branch ih =>
    rw [← List.cons_append, ← List.append_assoc] at hdistinct ⊢
    obtain ⟨hfront, hbranch⟩ := List.forall_mem_append.mp hdistinct
    cases hwrote : branch.isVacant with
    | true =>
      rw [fold_snoc_of_isVacant _ hwrote]
      exact ih hfront
    | false =>
      have hpolicy : MergePolicy.firstWins ≠ .error := nofun
      rw [fold_snoc _ hwrote]
      exact find?_mergeValue_firstWins (open_fold hpolicy _) (distinct_fold _ hfront)
        (hbranch _ List.mem_cons_self) hkind hnull (ih hfront)

/-- Induction over branches of which some wrote something: the first of these is taken as it is, and
each later one is merged into what there is. -/
theorem fold_induct {motive : List Value → State → Prop}
    (first : ∀ vacant branch, (∀ b ∈ vacant, b.isVacant = true) → branch.isVacant = false →
      motive (vacant ++ [branch]) ⟨branch, []⟩)
    (vacant : ∀ branches branch, branch.isVacant = true → motive branches (fold policy branches) →
      motive (branches ++ [branch]) (fold policy branches))
    (next : ∀ branches branch, branch.isVacant = false → motive branches (fold policy branches) →
      motive (branches ++ [branch]) (absorb policy (fold policy branches) branch))
    {branches : List Value} (h : ∃ b ∈ branches, b.isVacant = false) :
    motive branches (fold policy branches) := by
  induction branches using List.reverseRecOn with
  | nil =>
    obtain ⟨b, hb, -⟩ := h
    cases hb
  | append_singleton branches branch ih =>
    by_cases hwrote : ∃ b ∈ branches, b.isVacant = false
    · cases hvacant : branch.isVacant with
      | true =>
        rw [fold_snoc_of_isVacant branches hvacant]
        exact vacant _ _ hvacant (ih hwrote)
      | false =>
        rw [fold_snoc branches hvacant]
        exact next _ _ hvacant (ih hwrote)
    · have hall : ∀ b ∈ branches, b.isVacant = true := by
        intro b hb
        by_contra hfull
        exact hwrote ⟨b, hb, Bool.eq_false_iff.mpr hfull⟩
      obtain ⟨b, hb, hfull⟩ := h
      rcases List.mem_append.mp hb with hb | hb
      · exact absurd ⟨b, hb, hfull⟩ hwrote
      · cases List.mem_singleton.mp hb
        rw [fold_first hall hfull]
        exact first _ _ hall hfull

theorem exists_find?_of_fold {branches : List Value} {w : Value} {place : List Segment}
    (hpolicy : policy ≠ .error) (hdistinct : ∀ b ∈ branches, b.Distinct)
    (hfull : ∃ b ∈ branches, b.isVacant = false) (hkind : w.kind ≠ .object)
    (hw : (fold policy branches).value.find? place = some w) :
    ∃ b ∈ branches, b.find? place = some w := by
  refine fold_induct (motive := fun branches st => (∀ b ∈ branches, b.Distinct) →
    st.value.find? place = some w → ∃ b ∈ branches, b.find? place = some w)
    ?first ?vacant ?next hfull hdistinct hw
  case first =>
    intro vacant branch _ _ _ hw
    exact ⟨branch, List.mem_append_right _ List.mem_cons_self, hw⟩
  case vacant =>
    intro branches branch _ ih hdistinct hw
    obtain ⟨b, hb, hfound⟩ := ih (List.forall_mem_append.mp hdistinct).1 hw
    exact ⟨b, List.mem_append_left _ hb, hfound⟩
  case next =>
    intro branches branch _ ih hdistinct hw
    obtain ⟨hfront, hbranch⟩ := List.forall_mem_append.mp hdistinct
    rcases find?_of_find?_mergeValue hpolicy (open_fold hpolicy branches)
      (distinct_fold _ hfront) (hbranch _ List.mem_cons_self) hkind hw with h | h
    · obtain ⟨b, hb, hfound⟩ := ih hfront h
      exact ⟨b, List.mem_append_left _ hb, hfound⟩
    · exact ⟨branch, List.mem_append_right _ List.mem_cons_self, h⟩

theorem keys_fold {branches : List Value} (hpolicy : policy ≠ .error)
    (hdistinct : ∀ b ∈ branches, b.Distinct) (hfull : ∃ b ∈ branches, b.isVacant = false)
    (hobjects : ∀ b ∈ branches, b.isVacant = false → b.kind = .object) :
    ∃ fields, (fold policy branches).value = .object fields ∧
      Entries.keys fields = (branches.flatMap Value.keys).eraseDups := by
  refine fold_induct (motive := fun branches st => (∀ b ∈ branches, b.Distinct) →
    (∀ b ∈ branches, b.isVacant = false → b.kind = .object) →
    ∃ fields, st.value = .object fields ∧
      Entries.keys fields = (branches.flatMap Value.keys).eraseDups)
    ?first ?vacant ?next hfull hdistinct hobjects
  case first =>
    intro vacant branch hvacant hbranch hdistinct hobjects
    have hlast : branch ∈ vacant ++ [branch] := List.mem_append_right _ List.mem_cons_self
    obtain ⟨fields, rfl⟩ := Value.exists_of_kind_object (hobjects _ hlast hbranch)
    have hnone : vacant.flatMap Value.keys = [] :=
      List.flatMap_eq_nil_iff.mpr fun b hb => Value.keys_of_isVacant (hvacant b hb)
    rw [List.flatMap_append, List.flatMap_singleton, hnone, List.nil_append]
    exact ⟨fields, rfl, (eraseDups_of_nodup (hdistinct _ hlast).keys_nodup).symm⟩
  case vacant =>
    intro branches branch hvacant ih hdistinct hobjects
    rw [List.flatMap_append, List.flatMap_singleton, Value.keys_of_isVacant hvacant,
      List.append_nil]
    exact ih (List.forall_mem_append.mp hdistinct).1 (List.forall_mem_append.mp hobjects).1
  case next =>
    intro branches branch hbranch ih hdistinct hobjects
    have hlast : branch ∈ branches ++ [branch] := List.mem_append_right _ List.mem_cons_self
    obtain ⟨others, rfl⟩ := Value.exists_of_kind_object (hobjects _ hlast hbranch)
    obtain ⟨fields, hfields, hkeys⟩ :=
      ih (List.forall_mem_append.mp hdistinct).1 (List.forall_mem_append.mp hobjects).1
    have hothers := (hdistinct _ hlast).keys_nodup
    rw [List.flatMap_append, List.flatMap_singleton, Value.keys, eraseDups_append_of_nodup hothers,
      ← hkeys, absorb, hfields]
    exact keys_mergeValue hpolicy (open_fold hpolicy branches) hothers

/-- **The winner stays.** Where the last branch wins, whatever is no object in the last branch that
wrote something is there in the result; where the first wins, whatever is neither an object nor
`null` in the first that did. Under either policy nothing is made up: whatever is no object in the
result is at the same place in some branch. And if only objects were written, the names at the top
come in the order in which the branches bring them up. -/
theorem combine_wins {branches : List Value} (hdistinct : ∀ b ∈ branches, b.Distinct)
    (hfull : ∃ b ∈ branches, b.isVacant = false) :
    (∀ front last vacant, branches = front ++ last :: vacant → last.isVacant = false →
      (∀ b ∈ vacant, b.isVacant = true) →
        ∀ place w, last.find? place = some w → w.kind ≠ .object →
          (combine .lastWins branches).1.find? place = some w) ∧
    (∀ vacant first later, branches = vacant ++ first :: later →
      (∀ b ∈ vacant, b.isVacant = true) → first.isVacant = false →
        ∀ place w, first.find? place = some w → w.kind ≠ .object → w ≠ .null →
          (combine .firstWins branches).1.find? place = some w) ∧
    ∀ policy, policy = .lastWins ∨ policy = .firstWins →
      (∀ place w, (combine policy branches).1.find? place = some w → w.kind ≠ .object →
        ∃ b ∈ branches, b.find? place = some w) ∧
      ((∀ b ∈ branches, b.isVacant = false → b.kind = .object) →
        ∃ fields, (combine policy branches).1 = .object fields ∧
          Entries.keys fields = (branches.flatMap Value.keys).eraseDups) := by
  refine ⟨?_, ?_, ?_⟩
  · rintro front last vacant rfl hlast hvacant place w hw hkind
    obtain ⟨hfront, hrest⟩ := List.forall_mem_append.mp hdistinct
    exact find?_fold_lastWins hfront (hrest _ List.mem_cons_self) hlast hvacant hkind hw
  · rintro vacant first later rfl hvacant hfirst place w hw hkind hnull
    exact find?_fold_firstWins hvacant hfirst hdistinct hkind hnull hw
  · intro policy hpolicy
    have herror : policy ≠ .error := by rcases hpolicy with rfl | rfl <;> nofun
    have happend : policy ≠ .appendArray := by rcases hpolicy with rfl | rfl <;> nofun
    rw [combine_eq happend]
    constructor
    · intro place w hw hkind
      exact exists_find?_of_fold herror hdistinct hfull hkind hw
    · intro hobjects
      exact keys_fold herror hdistinct hfull hobjects

/-- Two offers, with nothing between them. -/
def offers : List Value :=
  [.object [("price", .object [("net", .string "2"), ("tax", .string "1")])], .null,
    .object [("tags", .array []), ("price", .object [("net", .string "3")])]]

theorem distinct_offers : ∀ b ∈ offers, b.Distinct := by
  have hkeys : ["net", "tax"].Nodup ∧ ["tags", "price"].Nodup := by decide
  simp only [offers, List.forall_mem_cons]
  refine ⟨.single (.object hkeys.1 ?first), .scalar rfl, .object hkeys.2 ?last, List.forall_mem_nil _⟩
  case first =>
    simp only [List.forall_mem_cons]
    exact ⟨.scalar rfl, .scalar rfl, List.forall_mem_nil _⟩
  case last =>
    simp only [List.forall_mem_cons]
    exact ⟨.array (List.forall_mem_nil _), .single (.scalar rfl), List.forall_mem_nil _⟩

theorem combine_wins_offers :
    (∀ b ∈ offers, b.Distinct) ∧ (∃ b ∈ offers, b.isVacant = false) ∧
      (combine .lastWins offers).1.find? [.key "price", .key "net"] = some (.string "3") ∧
      (combine .firstWins offers).1.find? [.key "price", .key "tax"] = some (.string "1") ∧
      ∃ fields, (combine .lastWins offers).1 = .object fields ∧
        Entries.keys fields = ["price", "tags"] := by
  have hfull : ∃ b ∈ offers, b.isVacant = false := ⟨_, List.mem_cons_self, rfl⟩
  obtain ⟨hlast, hfirst, heither⟩ := combine_wins distinct_offers hfull
  obtain ⟨-, hkeys⟩ := heither .lastWins (.inl rfl)
  refine ⟨distinct_offers, hfull, hlast [_, .null] _ [] rfl rfl (List.forall_mem_nil _) _ _ rfl nofun,
    hfirst [] _ _ rfl (List.forall_mem_nil _) rfl _ _ rfl nofun nofun, hkeys ?_⟩
  simp only [offers, List.forall_mem_cons]
  exact ⟨fun _ => rfl, nofun, fun _ => rfl, List.forall_mem_nil _⟩

end Remap.Run.Merge
