import Remap.Proofs.Run.Output
import Remap.Proofs.Value

/-!
# What a write puts together

A value that is written to a vacant slot is what is found there afterwards; an object that is
written onto an object is united with it, key by key (`Value.Unites`). The main statement is that a
write without a conflict does this at every place of the value, so that nothing of it is dropped,
and leaves every place off its path as it was (`write_unites`).
-/

namespace Remap.Value

/-- What a slot holds after a value is put into it. A vacant slot holds that value. An object keeps
its keys in their order, the new keys of another object follow in theirs, and what the two have
under one key is united again. Nothing else can be united. -/
inductive Unites : Value → Value → Value → Prop
  | vacant {old new : Value} (h : old.isVacant = true) : Unites old new new
  | object {old new both : List (String × Value)} (hfull : old ≠ [])
      (hkeys : Entries.keys both =
        Entries.keys old ++ (Entries.keys new).filter fun name => !Entries.has name old)
      (hold : ∀ name v, Entries.get? name old = some v → Entries.get? name new = none →
        Entries.get? name both = some v)
      (hnew : ∀ name w, Entries.get? name old = none → Entries.get? name new = some w →
        Entries.get? name both = some w)
      (hboth : ∀ name v w u, Entries.get? name old = some v → Entries.get? name new = some w →
        Entries.get? name both = some u → Unites v w u) :
      Unites (.object old) (.object new) (.object both)

theorem find?_append (front back : List Segment) (v : Value) :
    v.find? (front ++ back) = (v.find? front).bind (find? back) := by
  induction front generalizing v with
  | nil => rfl
  | cons segment rest ih =>
    cases segment with
    | key name =>
      rw [List.cons_append, find?, find?, Option.bind_assoc]
      exact Option.bind_congr fun w _ => ih w
    | index i =>
      rw [List.cons_append, find?, find?, Option.bind_assoc (v.items?.bind _)]
      exact Option.bind_congr fun w _ => ih w
    | wildcard => rfl

theorem find?_cons_of_isVacant {v : Value} (h : v.isVacant = true) (segment : Segment)
    (rest : List Segment) : v.find? (segment :: rest) = none := by
  rcases isVacant_iff.mp h with rfl | rfl
  · cases segment <;> rfl
  · cases segment <;> rfl

namespace Unites

variable {old new both : Value}

theorem eq_of_isVacant (h : Unites old new both) (hvacant : old.isVacant = true) : both = new := by
  cases h with
  | vacant => rfl
  | object hfull =>
    rcases isVacant_iff.mp hvacant with heq | heq
    · cases heq
    · exact absurd (object.inj heq) hfull

/-- A slot that is not vacant is united only as an object with an object. -/
theorem of_full (h : Unites old new both) (hfull : old.isVacant = false) :
    ∃ xs ys zs, old = .object xs ∧ new = .object ys ∧ both = .object zs := by
  cases h with
  | vacant h => rw [h] at hfull; cases hfull
  | object => exact ⟨_, _, _, rfl, rfl, rfl⟩

/-- Whatever is at a place of a value is united with what is there in the slot. -/
theorem find? {place : List Segment} {w : Value} (h : Unites old new both)
    (hw : new.find? place = some w) :
    ∃ u, Unites ((old.find? place).getD .null) w u ∧ both.find? place = some u := by
  induction h generalizing place with
  | @vacant old new h =>
    cases place with
    | nil =>
      cases hw
      exact ⟨_, .vacant h, rfl⟩
    | cons segment rest =>
      rw [find?_cons_of_isVacant h]
      exact ⟨w, .vacant rfl, hw⟩
  | @object old new both hfull hkeys hold hnew hboth ih =>
    cases place with
    | nil =>
      cases hw
      exact ⟨_, .object hfull hkeys hold hnew hboth, rfl⟩
    | cons segment rest =>
      cases segment with
      | index | wildcard => cases hw
      | key name =>
        obtain ⟨y, hy, hrest⟩ := Option.bind_eq_some_iff.mp hw
        rw [Value.find?, Value.find?]
        cases hx : Entries.get? name old with
        | none =>
          have hz : Entries.get? name both = some y := hnew name y hx hy
          refine ⟨w, ?_, Option.bind_eq_some_iff.mpr ⟨y, hz, hrest⟩⟩
          rw [Value.get?, hx]
          exact .vacant rfl
        | some x =>
          have hmem : name ∈ Entries.keys both := by
            rw [hkeys]
            exact List.mem_append_left _ (Entries.mem_keys_of_get? hx)
          obtain ⟨z, hz⟩ := Entries.get?_of_mem_keys hmem
          obtain ⟨u, hu, hfound⟩ := ih name x y z hx hy hz hrest
          refine ⟨u, ?_, Option.bind_eq_some_iff.mpr ⟨z, hz, hfound⟩⟩
          rw [Value.get?, hx]
          exact hu

end Unites

end Remap.Value

namespace Remap.Run.Output

open Value (Unites)

variable {existing incoming : List (String × Value)}

/-! ## Entries put into an object -/

theorem keys_spread (h : (Entries.keys incoming).Nodup) :
    Entries.keys (spread existing incoming) = Entries.keys existing ++
      (Entries.keys incoming).filter fun name => !Entries.has name existing := by
  induction incoming generalizing existing with
  | nil => exact (List.append_nil _).symm
  | cons e rest ih =>
    obtain ⟨name, value⟩ := e
    obtain ⟨hname, hrest⟩ := List.nodup_cons.mp h
    have hhas {other : String} (hother : other ∈ Entries.keys rest) (v : Value) :
        Entries.has other (Entries.put name v existing) = Entries.has other existing := by
      have hne : other ≠ name := fun heq => hname (heq ▸ hother)
      rw [Entries.has, Entries.get?_put_of_ne hne, Entries.has]
    have hfilter (v : Value) : ((Entries.keys rest).filter fun other =>
        !Entries.has other (Entries.put name v existing)) =
          (Entries.keys rest).filter fun other => !Entries.has other existing :=
      List.filter_congr fun other hother => congrArg Bool.not (hhas hother v)
    rw [spread, ih hrest, hfilter]
    show _ = _ ++ (name :: Entries.keys rest).filter _
    by_cases hmem : name ∈ Entries.keys existing
    · rw [Entries.keys_put_of_mem _ hmem, List.filter_cons_of_neg]
      simp [Entries.has_iff.mpr hmem]
    · rw [Entries.keys_put_of_notMem _ hmem, List.filter_cons_of_pos, List.append_assoc,
        List.singleton_append]
      simp [Bool.eq_false_iff.mpr (mt Entries.has_iff.mp hmem)]

theorem get?_spread_of_none {name : String} (h : Entries.get? name incoming = none) :
    Entries.get? name (spread existing incoming) = Entries.get? name existing := by
  induction incoming generalizing existing with
  | nil => rw [spread]
  | cons e rest ih =>
    obtain ⟨k, value⟩ := e
    rw [Entries.get?] at h
    split at h
    · cases h
    · next hne => rw [spread, ih h, Entries.get?_put_of_ne (Ne.symm hne)]

theorem get?_spread_of_some (hkeys : (Entries.keys incoming).Nodup) {name : String} {value : Value}
    (h : Entries.get? name incoming = some value) :
    Entries.get? name (spread existing incoming) =
      some (match Entries.get? name existing with
        | some old => fill old value
        | none => value) := by
  induction incoming generalizing existing with
  | nil => cases h
  | cons e rest ih =>
    obtain ⟨k, v⟩ := e
    obtain ⟨hk, hrest⟩ := List.nodup_cons.mp hkeys
    rw [Entries.get?] at h
    split at h
    · next heq =>
      subst heq
      cases h
      have hnone : Entries.get? k rest = none := Entries.get?_eq_none_iff.mpr hk
      rw [spread, get?_spread_of_none hnone]
      exact Entries.get?_put_self
    · next hne => rw [spread, ih hrest h, Entries.get?_put_of_ne (Ne.symm hne)]

/-! ## Slots -/

theorem fill_of_isVacant {slot : Value} (h : slot.isVacant = true) (value : Value) :
    fill slot value = value := by
  cases value <;> (unfold fill; exact if_pos h)

theorem unites_fill_of_isVacant {slot value : Value} (h : slot.isVacant = true) :
    Unites slot value (fill slot value) := by
  rw [fill_of_isVacant h]
  exact .vacant h

theorem fill_object (h : existing ≠ []) :
    fill (.object existing) (.object incoming) = .object (spread existing incoming) := by
  have hfull : (Value.object existing).isVacant = false := by
    cases existing with
    | nil => exact absurd rfl h
    | cons => rfl
  rw [fill, hfull]
  rfl

/-- Where no entry is refused as it stands, each meets nothing, a vacant slot, or an object as an
object. -/
theorem of_shallowClash?_eq_none {p : TargetPath} (h : shallowClash? p existing incoming = none)
    {e : String × Value} (he : e ∈ incoming) {old : Value}
    (hold : Entries.get? e.1 existing = some old) :
    old.isVacant = true ∨ ∃ xs ys, old = .object xs ∧ e.2 = .object ys := by
  induction incoming with
  | nil => cases he
  | cons f rest ih =>
    obtain ⟨name, value⟩ := f
    unfold shallowClash? at h
    rcases List.mem_cons.mp he with rfl | hrest
    · rw [hold] at h
      split at h
      · next heq => exact .inr ⟨_, _, Option.some.inj heq, rfl⟩
      · next heq _ =>
        split at h
        · next hvacant => exact .inl (Option.some.inj heq ▸ hvacant)
        · cases h
      · next heq => cases heq
    · split at h
      · exact ih h hrest
      · split at h
        · exact ih h hrest
        · cases h
      · exact ih h hrest

/-- Where no part of an entry is refused, neither is any part of one that meets an object. -/
theorem of_deepClash?_eq_none {p : TargetPath} (h : deepClash? p existing incoming = none)
    {e : String × Value} (he : e ∈ incoming) {old : List (String × Value)}
    (hold : Entries.get? e.1 existing = some (.object old)) :
    clash? (key p e.1) old e.2 = none := by
  induction incoming with
  | nil => cases he
  | cons f rest ih =>
    rw [deepClash?, Option.or_eq_none_iff] at h
    rcases List.mem_cons.mp he with rfl | he
    · have hentry := h.2
      rwa [hold] at hentry
    · exact ih h.1 he

/-- What is put into a slot that does not refuse it is united with what is there. -/
theorem unites_fill {new : Value} (hnew : new.Distinct) {p : TargetPath} {old : Value}
    (h : old.isVacant = true ∨
      ∃ xs ys, old = .object xs ∧ new = .object ys ∧ clash? p xs new = none) :
    Unites old new (fill old new) := by
  -- Only an object is put into a slot that is not vacant; the induction goes down its entries.
  induction hnew generalizing p old with
  | scalar hscalar =>
    rcases h with h | ⟨xs, ys, -, rfl, -⟩
    · exact unites_fill_of_isVacant h
    · cases hscalar
  | array =>
    rcases h with h | ⟨xs, ys, -, hobject, -⟩
    · exact unites_fill_of_isVacant h
    · cases hobject
  | @object ys hkeys _ ih =>
    by_cases hslot : old.isVacant = true
    · exact unites_fill_of_isVacant hslot
    · obtain ⟨xs, _, rfl, -, hclash⟩ := h.resolve_left hslot
      have hfull : xs ≠ [] := fun heq => hslot (heq ▸ rfl)
      rw [clash?, Option.or_eq_none_iff] at hclash
      rw [fill_object hfull]
      refine .object hfull (keys_spread hkeys) (fun name v hv hnone => ?_)
        (fun name w hnone hw => ?_) (fun name v w u hv hw hu => ?_)
      · rw [get?_spread_of_none hnone, hv]
      · rw [get?_spread_of_some hkeys hw, hnone]
      · rw [get?_spread_of_some hkeys hw, hv] at hu
        cases hu
        have hmem := Entries.mem_of_get? hw
        refine ih _ hmem (p := key p name) ?_
        refine (of_shallowClash?_eq_none hclash.1 hmem hv).imp_right fun ⟨vs, ws, hvs, hws⟩ => ?_
        exact ⟨vs, ws, hvs, hws, of_deepClash?_eq_none hclash.2 hmem (hvs ▸ hv)⟩

theorem unites_place {p : TargetPath} {slot value : Value} (hvalue : value.Distinct)
    (h : (place p slot value).conflict = none) : Unites slot value (place p slot value).tree := by
  unfold place at h ⊢
  split at h
  · next hvacant => rw [if_pos hvacant]; exact .vacant hvacant
  · next hfull =>
    rw [if_neg hfull]
    split at h
    · split at h
      · cases h
      · next hclash => exact unites_fill hvalue (.inr ⟨_, _, rfl, rfl, hclash⟩)
    · cases h

/-! ## Writes -/

/-- Below what is not there nothing is found, as below `null`. -/
theorem find?_getD {rest : List Segment} (h : rest ≠ []) (found : Option Value) :
    (found.getD .null).find? rest = found.bind (Value.find? rest) := by
  obtain ⟨segment, rest, rfl⟩ := List.exists_cons_of_ne_nil h
  cases found with
  | some old => rfl
  | none => rw [Option.getD_none, Value.find?_cons_of_isVacant rfl, Option.bind_none]

theorem getD_find?_getD (found : Option Value) (rest : List Segment) :
    ((found.getD .null).find? rest).getD .null = (found.bind (Value.find? rest)).getD .null := by
  cases rest with
  | nil => cases found <;> rfl
  | cons => rw [find?_getD (List.cons_ne_nil _ _)]

theorem getD_getElem?_padTo (i : Nat) (items : List Value) :
    ((padTo i items)[i]?).getD .null = (items[i]?).getD .null := by
  by_cases hi : i < items.length
  · rw [padTo_of_lt hi]
  · have hle := Nat.le_of_not_lt hi
    rw [getElem?_padTo_of_le hle, List.getElem?_eq_none hle]
    rfl

theorem length_set_padTo (i : Nat) (items : List Value) (x : Value) :
    ((padTo i items).set i x).length = max items.length (i + 1) := by
  rw [List.length_set, padTo, List.length_append, List.length_replicate]
  omega

theorem getElem?_set_padTo_of_ne {i k : Nat} (h : i ≠ k) (items : List Value) (x : Value) :
    ((padTo i items).set i x)[k]? =
      if k < items.length then items[k]? else if k < i then some .null else none := by
  rw [List.getElem?_set_ne h, padTo]
  split
  · next hk => rw [List.getElem?_append_left hk]
  · next hk =>
    have hle := Nat.le_of_not_lt hk
    rw [List.getElem?_append_right hle, List.getElem?_replicate]
    split <;> split <;> first | rfl | omega

theorem getElem?_set_padTo_self (i : Nat) (items : List Value) (x : Value) :
    ((padTo i items).set i x)[i]? = some x :=
  List.getElem?_set_self (length_padTo i items)

/-- Nothing is found in an object that is made where `null` was. -/
theorem find?_made_object (slot : Value) (segment : Segment) (rest : List Segment) :
    (if slot.isNull then Value.object [] else slot).find? (segment :: rest) =
      slot.find? (segment :: rest) := by
  split
  · next hnull =>
    rw [Value.isNull_iff.mp hnull, Value.find?_cons_of_isVacant rfl,
      Value.find?_cons_of_isVacant rfl]
  · rfl

/-- Nothing is found in an array that is made in a vacant slot. -/
theorem find?_made_array (slot : Value) (segment : Segment) (rest : List Segment) :
    (if slot.isVacant then Value.array [] else slot).find? (segment :: rest) =
      slot.find? (segment :: rest) := by
  split
  · next hvacant =>
    rw [Value.find?_cons_of_isVacant hvacant]
    cases segment <;> rfl
  · rfl

/-- What is found at the end of the path of a write without a conflict is what was there, united
with the value. -/
theorem unites_writeAt {value : Value} (hvalue : value.Distinct) {walked segments : List Segment}
    {slot : Value} (h : (writeAt value walked segments slot).conflict = none) :
    ∃ u, Unites ((slot.find? segments).getD .null) value u ∧
      (writeAt value walked segments slot).tree.find? segments = some u := by
  induction segments generalizing walked slot with
  | nil => exact ⟨_, unites_place hvalue h, rfl⟩
  | cons segment rest ih =>
    cases segment with
    | wildcard => cases h
    | key name =>
      rw [← find?_made_object]
      rw [writeAt] at h ⊢
      generalize (if slot.isNull then Value.object [] else slot) = slot at h ⊢
      split at h
      · obtain ⟨u, hu, hfound⟩ := ih h
        rw [getD_find?_getD] at hu
        refine ⟨u, hu, ?_⟩
        rw [Value.find?, Value.get?, Entries.get?_put_self]
        exact hfound
      · cases h
    | index i =>
      rw [← find?_made_array]
      rw [writeAt] at h ⊢
      generalize (if slot.isVacant then Value.array [] else slot) = slot at h ⊢
      split at h
      · obtain ⟨u, hu, hfound⟩ := ih h
        rw [getD_getElem?_padTo, getD_find?_getD] at hu
        refine ⟨u, hu, ?_⟩
        rw [Value.find?, Value.items?, Option.bind_some, getElem?_set_padTo_self]
        exact hfound
      · cases h

/-- Whether a place holds after a write what it held before, or a `null` where there was nothing. -/
def Keeps (place : List Segment) (before after : Value) : Prop :=
  after.find? place = before.find? place ∨
    before.find? place = none ∧ after.find? place = some .null

/-- Where an entry is put into an object, what is below it is kept as below the entry. -/
theorem keeps_put_self {name : String} {fields : Entries Value} {below : List Segment} {new : Value}
    (hbelow : below ≠ []) (h : Keeps below ((fields.get? name).getD .null) new) :
    Keeps (.key name :: below) (.object fields) (.object (fields.put name new)) := by
  rw [Keeps, Value.find?, Value.find?, Value.get?, Value.get?, Entries.get?_put_self,
    Option.bind_some, ← find?_getD hbelow]
  exact h

theorem keeps_put_of_ne {k name : String} (h : k ≠ name) (fields : Entries Value)
    (below : List Segment) (new : Value) :
    Keeps (.key k :: below) (.object fields) (.object (fields.put name new)) := by
  rw [Keeps, Value.find?, Value.find?, Value.get?, Value.get?, Entries.get?_put_of_ne h]
  exact .inl rfl

/-- Where an item is set, what is below it is kept as below the item. -/
theorem keeps_set_self {i : Nat} {items : List Value} {below : List Segment} {new : Value}
    (hbelow : below ≠ []) (h : Keeps below ((items[i]?).getD .null) new) :
    Keeps (.index i :: below) (.array items) (.array ((padTo i items).set i new)) := by
  rw [Keeps, Value.find?, Value.find?, Value.items?, Value.items?, Option.bind_some,
    Option.bind_some, getElem?_set_padTo_self, Option.bind_some, ← find?_getD hbelow]
  exact h

/-- Where an array is made longer, there are `null`s. -/
theorem keeps_set_of_ne {i j : Nat} (h : j ≠ i) (items : List Value) (below : List Segment)
    (new : Value) :
    Keeps (.index j :: below) (.array items) (.array ((padTo i items).set i new)) := by
  rw [Keeps, Value.find?, Value.find?, Value.items?, Value.items?, Option.bind_some,
    Option.bind_some, getElem?_set_padTo_of_ne (Ne.symm h)]
  split
  · exact .inl rfl
  · next hj =>
    rw [List.getElem?_eq_none (Nat.le_of_not_lt hj)]
    split
    · cases below with
      | nil => exact .inr ⟨rfl, rfl⟩
      | cons => exact .inl (Value.find?_cons_of_isVacant rfl ..)
    · exact .inl rfl

/-- Off the path of a write everything is kept. -/
theorem keeps_writeAt {value : Value} {walked segments place : List Segment} {slot : Value}
    (hplace : ¬place <+: segments) (hsegments : ¬segments <+: place) :
    Keeps place slot (writeAt value walked segments slot).tree := by
  induction segments generalizing walked place slot with
  | nil => exact absurd List.nil_prefix hsegments
  | cons segment rest ih =>
    obtain _ | ⟨other, below⟩ := place
    · exact absurd List.nil_prefix hplace
    rw [List.cons_prefix_cons, not_and] at hplace hsegments
    have hbelow (heq : other = segment) : below ≠ [] :=
      fun hnil => hplace heq (hnil ▸ List.nil_prefix)
    cases segment with
    | wildcard => exact .inl rfl
    | key name =>
      rw [Keeps, ← find?_made_object slot, ← Keeps, writeAt]
      generalize (if slot.isNull then Value.object [] else slot) = slot
      split
      · next fields =>
        cases other with
        | index | wildcard => exact .inl rfl
        | key k =>
          by_cases hk : k = name
          · subst hk
            exact keeps_put_self (hbelow rfl) (ih (hplace rfl) (hsegments rfl))
          · exact keeps_put_of_ne hk fields below _
      · exact .inl rfl
    | index i =>
      rw [Keeps, ← find?_made_array slot, ← Keeps, writeAt]
      generalize (if slot.isVacant then Value.array [] else slot) = slot
      split
      · next items =>
        cases other with
        | key | wildcard => exact .inl rfl
        | index j =>
          by_cases hj : j = i
          · subst hj
            refine keeps_set_self (hbelow rfl) ?_
            rw [← getD_getElem?_padTo]
            exact ih (hplace rfl) (hsegments rfl)
          · exact keeps_set_of_ne hj items below _
      · exact .inl rfl

/-- A value that is written without a conflict is what its slot holds afterwards, if there was
nothing or the slot was vacant; else both are objects, and the slot holds them united. This is so at
every place inside the value, so that no part of it is dropped: wherever the slot holds something at
the same place, that is vacant, or an object as the part is. Off the path of the write every place
holds what it held, or is new and holds a `null`, as it pads an array. -/
theorem write_unites {tree value : Value} {target : TargetPath} (hvalue : value.Distinct)
    (h : (write tree target value).conflict = none) :
    ((∀ slot, tree.find? target.segments = some slot → slot.isVacant = true) →
      (write tree target value).tree.find? target.segments = some value) ∧
    (∀ slot, tree.find? target.segments = some slot → slot.isVacant = false →
      ∃ old new both, slot = .object old ∧ value = .object new ∧ Unites slot value (.object both) ∧
        (write tree target value).tree.find? target.segments = some (.object both)) ∧
    (∀ place part, value.find? place = some part →
      (∃ both, Unites ((tree.find? (target.segments ++ place)).getD .null) part both ∧
        (write tree target value).tree.find? (target.segments ++ place) = some both) ∧
      ∀ old, tree.find? (target.segments ++ place) = some old →
        old.isVacant = true ∨ old.kind = .object ∧ part.kind = .object) ∧
    ∀ place, ¬place <+: target.segments → ¬target.segments <+: place →
      Keeps place tree (write tree target value).tree := by
  obtain ⟨u, hu, hfound⟩ := unites_writeAt hvalue h
  refine ⟨fun hslot => ?vacant, fun slot hslot hfull => ?full, fun place part hpart => ?parts,
    fun place hplace hsegments => keeps_writeAt hplace hsegments⟩
  case vacant =>
    have hvacant : ((tree.find? target.segments).getD .null).isVacant = true := by
      cases hold : tree.find? target.segments with
      | none => rfl
      | some slot => exact hslot slot hold
    rwa [hu.eq_of_isVacant hvacant] at hfound
  case full =>
    rw [hslot, Option.getD_some] at hu
    obtain ⟨old, new, both, hold, hnew, rfl⟩ := hu.of_full hfull
    exact ⟨old, new, both, hold, hnew, hu, hfound⟩
  case parts =>
    obtain ⟨both, hboth, hplace⟩ := hu.find? hpart
    rw [getD_find?_getD, ← Value.find?_append] at hboth
    refine ⟨⟨both, hboth, ?_⟩, fun old hold => ?_⟩
    · rw [Value.find?_append]
      exact Option.bind_eq_some_iff.mpr ⟨u, hfound, hplace⟩
    · rw [hold, Option.getD_some] at hboth
      cases hvacant : old.isVacant with
      | true => exact .inl rfl
      | false =>
        obtain ⟨_, _, _, rfl, rfl, -⟩ := hboth.of_full hvacant
        exact .inr ⟨rfl, rfl⟩

/-- An object is written onto another one, of which one entry is vacant and one is not met. -/
theorem write_unites_entries :
    let slot : Value := .object [("x", .string "1"), ("y", .object [])]
    let tree : Value := .object [("a", slot), ("b", .string "0")]
    let value : Value := .object [("z", .string "2"), ("y", .string "3")]
    let written := write tree ⟨[.key "a"]⟩ value
    written.conflict = none ∧
      (∃ both, Unites slot value (.object both) ∧
        written.tree.find? [.key "a"] = some (.object both)) ∧
      Keeps [.key "b"] tree written.tree := by
  intro slot tree value written
  have hvalue : value.Distinct :=
    .object (by decide) (List.forall_mem_cons.mpr
      ⟨.scalar rfl, List.forall_mem_singleton.mpr (.scalar rfl)⟩)
  have hconflict : written.conflict = none := by cbv
  obtain ⟨-, hslot, -, hkept⟩ := write_unites hvalue hconflict
  obtain ⟨_, _, both, -, -, hboth, hfound⟩ := hslot slot rfl rfl
  exact ⟨hconflict, ⟨both, hboth, hfound⟩, hkept _ (by decide) (by decide)⟩

end Remap.Run.Output
