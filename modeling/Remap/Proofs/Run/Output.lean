import Remap.Proofs.Entries
import Remap.Proofs.Path.Grammar
import Remap.Run.Output

/-!
# What a write keeps

A place in a value is given by keys and indices. The main statements are that a write keeps every
atom, that is every scalar but `null`, where it is (`grows_write`), that an atom that is written
without a conflict is found at its target (`find?_write`), and that a write that meets a conflict
leaves the output as it was, though it makes containers on its way before it knows whether its slot
takes the value (`unchanged_of_conflict`).
-/

namespace Remap.Value

/-- Whether a value is a scalar other than `null`. -/
def isAtom (v : Value) : Bool := v.isScalar && !v.isNull

/-- The value at the end of keys and indices. -/
def find? : List Segment → Value → Option Value
  | [], v => some v
  | .key name :: rest, v => (v.get? name).bind (find? rest)
  | .index i :: rest, v => (v.items?.bind fun items => items[i]?).bind (find? rest)
  | .wildcard :: _, _ => none

/-- Every atom of a value is found in another at the same place. -/
def Grows (a b : Value) : Prop :=
  ∀ segments v, v.isAtom → a.find? segments = some v → b.find? segments = some v

theorem Grows.refl (a : Value) : Grows a a := fun _ _ _ h => h

theorem Grows.trans {a b c : Value} (hab : Grows a b) (hbc : Grows b c) : Grows a c :=
  fun segments v hv h => hbc segments v hv (hab segments v hv h)

theorem isVacant_iff {v : Value} : v.isVacant = true ↔ v = .null ∨ v = .object [] := by
  cases v with
  | object fields => cases fields <;> simp [isVacant]
  | null | bool | number | string | array => simp [isVacant]

theorem isNull_iff {v : Value} : v.isNull = true ↔ v = .null := by
  cases v <;> simp [isNull]

/-- A vacant value has no atoms. -/
theorem Grows.of_isVacant {a b : Value} (h : a.isVacant = true) : Grows a b := by
  intro segments v hv hfound
  rcases isVacant_iff.mp h with rfl | rfl
  · cases segments with
    | nil => cases hfound; cases hv
    | cons segment rest => cases segment <;> cases hfound
  · cases segments with
    | nil => cases hfound; cases hv
    | cons segment rest => cases segment <;> cases hfound

/-- An object grows as one of its entries grows, or is new. -/
theorem Grows.put {name : String} {value : Value} {fields : Entries Value}
    (h : ∀ old, fields.get? name = some old → Grows old value) :
    Grows (.object fields) (.object (fields.put name value)) := by
  intro segments v hv hfound
  cases segments with
  | nil => cases hfound; cases hv
  | cons segment rest =>
    cases segment with
    | index | wildcard => cases hfound
    | key other =>
      obtain ⟨old, hold, hrest⟩ := Option.bind_eq_some_iff.mp hfound
      by_cases heq : other = name
      · subst heq
        rw [find?, get?, Entries.get?_put_self]
        exact h old hold rest v hv hrest
      · rw [find?, get?, Entries.get?_put_of_ne heq]
        exact Option.bind_eq_some_iff.mpr ⟨old, hold, hrest⟩

/-- An array grows as each of its items grows. -/
theorem Grows.array {xs ys : List Value}
    (h : ∀ (i : Nat) x, xs[i]? = some x → ∃ y, ys[i]? = some y ∧ Grows x y) :
    Grows (.array xs) (.array ys) := by
  intro segments v hv hfound
  cases segments with
  | nil => cases hfound; cases hv
  | cons segment rest =>
    cases segment with
    | key | wildcard => cases hfound
    | index i =>
      obtain ⟨x, hx, hrest⟩ := Option.bind_eq_some_iff.mp hfound
      obtain ⟨y, hy, hgrows⟩ := h i x hx
      exact Option.bind_eq_some_iff.mpr ⟨y, hy, hgrows rest v hv hrest⟩

end Remap.Value

namespace Remap.Run.Output

open Value (Grows)

/-! ## Items -/

theorem length_padTo (i : Nat) (items : List Value) : i < (padTo i items).length := by
  simp only [padTo, List.length_append, List.length_replicate]
  omega

theorem grows_padTo (i : Nat) (items : List Value) :
    Grows (.array items) (.array (padTo i items)) := by
  refine .array fun j x hx => ⟨x, ?_, .refl x⟩
  obtain ⟨hj, -⟩ := List.getElem?_eq_some_iff.mp hx
  rw [padTo, List.getElem?_append_left hj, hx]

theorem grows_set {items : List Value} {i : Nat} {value : Value}
    (h : ∀ old, items[i]? = some old → Grows old value) :
    Grows (.array items) (.array (items.set i value)) := by
  refine .array fun j x hx => ?_
  by_cases heq : i = j
  · subst heq
    obtain ⟨hi, -⟩ := List.getElem?_eq_some_iff.mp hx
    exact ⟨value, List.getElem?_set_self hi, h x hx⟩
  · exact ⟨x, by rw [List.getElem?_set_ne heq, hx], .refl x⟩

/-! ## Slots -/

mutual

theorem grows_fill (slot value : Value) : Grows slot (fill slot value) := by
  have hother {v : Value} : Grows slot (if slot.isVacant then v else slot) := by
    split
    · next h => exact .of_isVacant h
    · exact .refl slot
  cases value with
  | object incoming =>
    unfold fill
    split
    · next h => exact .of_isVacant h
    · split
      · exact grows_spread _ incoming
      · exact .refl slot
  | null | bool | number | string | array => exact hother

/-- Entries that are put into an object keep the atoms that it has. -/
theorem grows_spread (existing : List (String × Value)) :
    (incoming : List (String × Value)) →
      Grows (.object existing) (.object (spread existing incoming))
  | [] => .refl _
  | (name, value) :: rest => by
    rw [spread]
    refine Grows.trans (.put fun old hold => ?_) (grows_spread _ rest)
    simp only [hold]
    exact grows_fill old value

end

theorem grows_place (p : TargetPath) (slot value : Value) :
    Grows slot (place p slot value).tree := by
  unfold place
  split
  · next h => exact .of_isVacant h
  · split
    · split
      · exact .refl _
      · exact grows_fill _ _
    · exact .refl _

/-! ## Writes -/

theorem grows_writeAt (value : Value) (walked segments : List Segment) (slot : Value) :
    Grows slot (writeAt value walked segments slot).tree := by
  induction segments generalizing walked slot with
  | nil => exact grows_place _ _ _
  | cons segment rest ih =>
    cases segment with
    | wildcard => exact .refl _
    | key name =>
      have hopen : Grows slot (if slot.isNull then .object [] else slot) := by
        split
        · next h => exact .of_isVacant (by rw [Value.isNull_iff.mp h]; rfl)
        · exact .refl slot
      refine hopen.trans ?_
      rw [writeAt]
      generalize (if slot.isNull then Value.object [] else slot) = slot
      split
      · next fields =>
        refine .put fun old hold => ?_
        rw [hold]
        exact ih _ old
      · exact .refl _
    | index i =>
      have hopen : Grows slot (if slot.isVacant then .array [] else slot) := by
        split
        · next h => exact .of_isVacant h
        · exact .refl slot
      refine hopen.trans ?_
      rw [writeAt]
      generalize (if slot.isVacant then Value.array [] else slot) = slot
      split
      · next items =>
        refine (grows_padTo i items).trans (grows_set fun old hold => ?_)
        rw [hold]
        exact ih _ old
      · exact .refl _

/-- A write keeps every atom where it is. -/
theorem grows_write (tree : Value) (target : TargetPath) (value : Value) :
    Grows tree (write tree target value).tree :=
  grows_writeAt value [] target.segments tree

theorem find?_writeAt {value : Value} (hvalue : value.isAtom) {walked segments : List Segment}
    {slot : Value} (h : (writeAt value walked segments slot).conflict = none) :
    (writeAt value walked segments slot).tree.find? segments = some value := by
  induction segments generalizing walked slot with
  | nil =>
    rw [writeAt] at h ⊢
    unfold place at h ⊢
    split at h
    · next hvacant => rw [if_pos hvacant]; rfl
    · -- Only an object is put into a slot that is not vacant, and an object is no atom.
      split at h
      · cases hvalue
      · cases h
  | cons segment rest ih =>
    cases segment with
    | wildcard => cases h
    | key name =>
      rw [writeAt] at h ⊢
      generalize (if slot.isNull then Value.object [] else slot) = slot at h ⊢
      split at h
      · next fields =>
        simp only [Value.find?, Value.get?, Entries.get?_put_self]
        exact ih h
      · cases h
    | index i =>
      rw [writeAt] at h ⊢
      generalize (if slot.isVacant then Value.array [] else slot) = slot at h ⊢
      split at h
      · next items =>
        have hset (v : Value) : ((padTo i items).set i v)[i]? = some v :=
          List.getElem?_set_self (length_padTo i items)
        simp only [Value.find?, Value.items?, Option.bind_some, hset]
        exact ih h
      · cases h

/-- An atom that is written without a conflict is found at its target. -/
theorem find?_write {tree value : Value} {target : TargetPath} (hvalue : value.isAtom)
    (h : (write tree target value).conflict = none) :
    (write tree target value).tree.find? target.segments = some value :=
  find?_writeAt hvalue h

/-! ## Conflicts -/

theorem padTo_of_lt {i : Nat} {items : List Value} (h : i < items.length) :
    padTo i items = items := by
  rw [padTo, Nat.sub_eq_zero_of_le h, List.replicate_zero, List.append_nil]

theorem getElem?_padTo_of_le {i : Nat} {items : List Value} (h : items.length ≤ i) :
    (padTo i items)[i]? = some .null := by
  rw [padTo, List.getElem?_append_right h, List.getElem?_replicate_of_lt (by omega)]

/-- Below a slot that is `null` nothing stands in the way of a write. -/
theorem conflict_writeAt_null {value : Value} {walked segments : List Segment}
    (hplain : .wildcard ∉ segments) : (writeAt value walked segments .null).conflict = none := by
  induction segments generalizing walked with
  | nil => rfl
  | cons segment rest ih =>
    obtain ⟨hsegment, hrest⟩ := not_or.mp (mt List.mem_cons.mpr hplain)
    cases segment with
    | key name => exact ih hrest
    | index i =>
      have hitem : (padTo i [])[i]? = some Value.null := getElem?_padTo_of_le (Nat.zero_le i)
      simp only [writeAt, Value.isVacant, if_true, hitem, Option.getD_some]
      exact ih hrest
    | wildcard => exact absurd rfl hsegment

theorem tree_place_of_conflict {p : TargetPath} {slot value : Value}
    (h : (place p slot value).conflict ≠ none) : (place p slot value).tree = slot := by
  unfold place at h ⊢
  split at h
  · exact absurd rfl h
  · next hfull =>
    rw [if_neg hfull]
    split at h
    · split at h
      · rfl
      · exact absurd rfl h
    · rfl

/-- Where a write meets a conflict, at its first segment or further down. A container that is made
on the way has nothing in it that stands in the way, so that whatever does was there before. -/
theorem writeAt_conflict_cases {value : Value} {walked rest : List Segment} {segment : Segment}
    {slot : Value} {conflict : Conflict} (hplain : .wildcard ∉ segment :: rest)
    (h : (writeAt value walked (segment :: rest) slot).conflict = some conflict) :
    (conflict = ⟨⟨walked⟩, slot.kind⟩ ∧ slot.isVacant = false ∧
      (writeAt value walked (segment :: rest) slot).tree = slot) ∨
    (∃ name fields old, segment = .key name ∧ slot = .object fields ∧
      Entries.get? name fields = some old ∧
      (writeAt value (walked ++ [segment]) rest old).conflict = some conflict ∧
      (writeAt value walked (segment :: rest) slot).tree =
        .object (Entries.put name (writeAt value (walked ++ [segment]) rest old).tree fields)) ∨
    ∃ i items old, segment = .index i ∧ slot = .array items ∧ items[i]? = some old ∧
      (writeAt value (walked ++ [segment]) rest old).conflict = some conflict ∧
      (writeAt value walked (segment :: rest) slot).tree =
        .array (items.set i (writeAt value (walked ++ [segment]) rest old).tree) := by
  obtain ⟨hsegment, hrest⟩ := not_or.mp (mt List.mem_cons.mpr hplain)
  have hfresh {walked segments : List Segment} (hplain : .wildcard ∉ segments) :
      (writeAt value walked segments .null).conflict ≠ some conflict := by
    rw [conflict_writeAt_null hplain]
    exact nofun
  cases segment with
  | wildcard => exact absurd rfl hsegment
  | key name =>
    cases slot with
    | null => exact absurd h (hfresh hplain)
    | bool | number | string | array => cases h; exact .inl ⟨rfl, rfl, rfl⟩
    | object fields =>
      simp only [writeAt, Value.isNull, Bool.false_eq_true, if_false] at h ⊢
      cases hold : Entries.get? name fields with
      | none => rw [hold] at h; exact absurd h (hfresh hrest)
      | some old =>
        rw [hold] at h
        exact .inr (.inl ⟨name, fields, old, rfl, rfl, hold, h, rfl⟩)
  | index i =>
    cases hvacant : slot.isVacant with
    | true =>
      have hitem : (padTo i [])[i]? = some Value.null := getElem?_padTo_of_le (Nat.zero_le i)
      simp only [writeAt, hvacant, if_true, hitem, Option.getD_some] at h
      exact absurd h (hfresh hrest)
    | false =>
      simp only [writeAt, hvacant, Bool.false_eq_true, if_false] at h ⊢
      split at h
      · next items =>
        by_cases hi : i < items.length
        · simp only [padTo_of_lt hi, List.getElem?_eq_getElem hi, Option.getD_some] at h ⊢
          exact .inr (.inr ⟨i, items, _, rfl, rfl, List.getElem?_eq_getElem hi, h, rfl⟩)
        · simp only [getElem?_padTo_of_le (Nat.le_of_not_lt hi), Option.getD_some] at h
          exact absurd h (hfresh hrest)
      · cases h
        exact .inl ⟨rfl, trivial, rfl⟩

/-- A write that meets a conflict changes nothing. -/
theorem tree_writeAt_of_conflict {value : Value} {walked segments : List Segment} {slot : Value}
    (hplain : .wildcard ∉ segments) (h : (writeAt value walked segments slot).conflict ≠ none) :
    (writeAt value walked segments slot).tree = slot := by
  induction segments generalizing walked slot with
  | nil => exact tree_place_of_conflict h
  | cons segment rest ih =>
    obtain ⟨conflict, hconflict⟩ := Option.ne_none_iff_exists'.mp h
    have hrest := (not_or.mp (mt List.mem_cons.mpr hplain)).2
    rcases writeAt_conflict_cases hplain hconflict with ⟨-, -, htree⟩ |
      ⟨name, fields, old, rfl, rfl, hold, hinner, htree⟩ |
      ⟨i, items, old, rfl, rfl, hold, hinner, htree⟩
    · exact htree
    · rw [htree, ih hrest (hinner ▸ nofun), Entries.put_of_get? hold]
    · obtain ⟨hi, rfl⟩ := List.getElem?_eq_some_iff.mp hold
      rw [htree, ih hrest (hinner ▸ nofun), List.set_getElem_self]

/-- The output stays as it is where a write without wildcards meets a conflict. -/
theorem tree_write_of_conflict {tree value : Value} {target : TargetPath}
    (hplain : .wildcard ∉ target.segments) (h : (write tree target value).conflict ≠ none) :
    (write tree target value).tree = tree :=
  tree_writeAt_of_conflict hplain h

end Remap.Run.Output

namespace Remap.Run

/-! ## What a conflict names -/

/-- Whether a conflict is about a slot inside a value at `walked`, one that is not vacant. -/
def Conflict.Names (conflict : Conflict) (walked : List Segment) (v : Value) : Prop :=
  ∃ below slot, conflict.at_.segments = walked ++ below ∧ v.find? below = some slot ∧
    slot.isVacant = false ∧ slot.kind = conflict.existing

namespace Conflict.Names

variable {conflict : Conflict} {walked : List Segment} {old : Value}

theorem here {p : TargetPath} {slot : Value} (h : slot.isVacant = false) :
    Names ⟨p, slot.kind⟩ p.segments slot :=
  ⟨[], slot, (List.append_nil _).symm, rfl, h, rfl⟩

theorem of_entry {name : String} {fields : List (String × Value)}
    (hold : Entries.get? name fields = some old)
    (h : conflict.Names (walked ++ [.key name]) old) : conflict.Names walked (.object fields) := by
  obtain ⟨below, slot, hat, hslot, hfull⟩ := h
  rw [List.append_assoc, List.singleton_append] at hat
  refine ⟨.key name :: below, slot, hat, ?_, hfull⟩
  rw [Value.find?, Value.get?, hold]
  exact hslot

theorem of_item {i : Nat} {items : List Value} (hold : items[i]? = some old)
    (h : conflict.Names (walked ++ [.index i]) old) : conflict.Names walked (.array items) := by
  obtain ⟨below, slot, hat, hslot, hfull⟩ := h
  rw [List.append_assoc, List.singleton_append] at hat
  refine ⟨.index i :: below, slot, hat, ?_, hfull⟩
  rw [Value.find?, Value.items?, Option.bind_some, hold]
  exact hslot

end Conflict.Names

namespace Output

open Conflict (Names)

theorem names_shallowClash? {p : TargetPath} {existing incoming : List (String × Value)}
    {conflict : Conflict} (h : shallowClash? p existing incoming = some conflict) :
    conflict.Names p.segments (.object existing) := by
  induction incoming with
  | nil => cases h
  | cons e rest ih =>
    unfold shallowClash? at h
    split at h
    · exact ih h
    · next old hold _ =>
      split at h
      · exact ih h
      · next hfull =>
        cases h
        exact .of_entry hold (.here (p := key p e.1) (Bool.eq_false_iff.mpr hfull))
    · exact ih h

mutual

/-- What one object refuses of another is refused by a slot of it. -/
theorem names_clash? {p : TargetPath} {existing : List (String × Value)} {conflict : Conflict} :
    ∀ incoming : Value, clash? p existing incoming = some conflict →
      conflict.Names p.segments (.object existing)
  | .object incoming, h => by
    rw [clash?] at h
    rcases Option.or_eq_some_iff.mp h with h | ⟨-, h⟩
    · exact names_shallowClash? h
    · exact names_deepClash? incoming h
  | .null, h | .bool _, h | .number _, h | .string _, h | .array _, h => nomatch h

theorem names_deepClash? {p : TargetPath} {existing : List (String × Value)} {conflict : Conflict} :
    ∀ incoming : List (String × Value), deepClash? p existing incoming = some conflict →
      conflict.Names p.segments (.object existing)
  | [], h => nomatch h
  | (name, value) :: rest, h => by
    rw [deepClash?] at h
    rcases Option.or_eq_some_iff.mp h with h | ⟨-, h⟩
    · exact names_deepClash? rest h
    · split at h
      · next hold => exact .of_entry hold (names_clash? value h)
      · cases h

end

theorem names_place {p : TargetPath} {slot value : Value} {conflict : Conflict}
    (h : (place p slot value).conflict = some conflict) : conflict.Names p.segments slot := by
  unfold place at h
  split at h
  · cases h
  · next hfull =>
    split at h
    · split at h
      · next hclash =>
        cases h
        exact names_clash? _ hclash
      · cases h
    · cases h
      exact .here (Bool.eq_false_iff.mpr hfull)

/-- A conflict names a slot that was there before the write. -/
theorem names_writeAt {value : Value} {walked segments : List Segment} {slot : Value}
    (hplain : .wildcard ∉ segments) {conflict : Conflict}
    (h : (writeAt value walked segments slot).conflict = some conflict) :
    conflict.Names walked slot := by
  induction segments generalizing walked slot with
  | nil => exact names_place h
  | cons segment rest ih =>
    have hrest := (not_or.mp (mt List.mem_cons.mpr hplain)).2
    rcases writeAt_conflict_cases hplain h with ⟨rfl, hfull, -⟩ |
      ⟨name, fields, old, rfl, rfl, hold, hinner, -⟩ | ⟨i, items, old, rfl, rfl, hold, hinner, -⟩
    · exact .here (p := ⟨walked⟩) hfull
    · exact .of_entry hold (ih hrest hinner)
    · exact .of_item hold (ih hrest hinner)

/-- Target paths hold no wildcard. A write at a path without wildcards that meets a conflict leaves
the output as it was, and the conflict names a slot of the output, one that is not vacant, with the
kind of what is in it. -/
theorem unchanged_of_conflict :
    (∀ text target, TargetPath.parse text = .ok target → .wildcard ∉ target.segments) ∧
    ∀ (tree value : Value) (target : TargetPath), .wildcard ∉ target.segments →
      ∀ conflict, (write tree target value).conflict = some conflict →
        (write tree target value).tree = tree ∧
          ∃ slot, tree.find? conflict.at_.segments = some slot ∧ slot.isVacant = false ∧
            slot.kind = conflict.existing := by
  refine ⟨fun text target h => (TargetPath.parse_eq_ok_iff.mp h).2,
    fun tree value target hplain conflict h => ⟨?_, ?_⟩⟩
  · refine tree_write_of_conflict hplain ?_
    rw [h]
    exact Option.some_ne_none _
  · obtain ⟨below, slot, hat, hslot, hfull⟩ := names_writeAt hplain h
    rw [List.nil_append] at hat
    exact ⟨slot, hat ▸ hslot, hfull⟩

/-- The second of two entries that are put onto an object is refused, and the first, which is new,
is not there afterwards. -/
theorem unchanged_of_conflict_entry :
    let tree : Value := .object [("a", .object [("x", .string "1")])]
    let written := write tree ⟨[.key "a"]⟩ (.object [("y", .string "2"), ("x", .string "3")])
    written.conflict = some ⟨⟨[.key "a", .key "x"]⟩, .string⟩ ∧ written.tree = tree := by
  intro tree written
  have htarget : TargetPath.parse "a" = .ok ⟨[.key "a"]⟩ := by cbv
  have hconflict : written.conflict = some ⟨⟨[.key "a", .key "x"]⟩, .string⟩ := by cbv
  have hplain := unchanged_of_conflict.1 "a" _ htarget
  exact ⟨hconflict, (unchanged_of_conflict.2 _ _ _ hplain _ hconflict).1⟩

end Output

end Remap.Run
