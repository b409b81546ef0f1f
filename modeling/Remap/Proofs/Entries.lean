import Remap.Entries

/-!
# Lemmas on ordered entries

What is found under a name, in terms of the names that a table has.
-/

namespace Remap.Entries

variable {α : Type} {key : String} {value : α} {es : Entries α}

theorem get?_eq_none_iff : es.get? key = none ↔ key ∉ es.keys := by
  induction es with
  | nil => simp [get?, keys]
  | cons e rest ih =>
    obtain ⟨k, v⟩ := e
    by_cases hk : k = key
    · simp [get?, keys, hk]
    · simpa [get?, keys, hk, Ne.symm hk] using ih

theorem has_iff : es.has key = true ↔ key ∈ es.keys := by
  rw [has, Option.isSome_iff_ne_none, ne_eq, get?_eq_none_iff, Classical.not_not]

@[simp] theorem keys_append (es fs : Entries α) : keys (es ++ fs) = es.keys ++ fs.keys :=
  List.map_append

@[simp] theorem keys_flatMap {β : Type} (xs : List β) (f : β → Entries α) :
    keys (xs.flatMap f) = xs.flatMap fun x => (f x).keys :=
  List.map_flatMap

theorem get?_of_mem_keys (h : key ∈ es.keys) : ∃ value, es.get? key = some value :=
  Option.isSome_iff_exists.mp (has_iff.mpr h)

/-- Where no name occurs twice, every entry is found. -/
theorem get?_of_mem (hkeys : es.keys.Nodup) (h : (key, value) ∈ es) : es.get? key = some value := by
  induction es with
  | nil => nomatch h
  | cons e rest ih =>
    obtain ⟨k, v⟩ := e
    obtain ⟨hnew, hrest⟩ := List.nodup_cons.mp hkeys
    rcases List.mem_cons.mp h with heq | h
    · cases heq
      simp [get?]
    · have hne : k ≠ key := fun heq => hnew (heq ▸ List.mem_map.mpr ⟨_, h, rfl⟩)
      rw [get?, if_neg hne]
      exact ih hrest h

theorem get?_put_self : (es.put key value).get? key = some value := by
  induction es with
  | nil => simp [put, get?]
  | cons e rest ih =>
    obtain ⟨k, v⟩ := e
    by_cases hk : k = key
    · simp [put, get?, hk]
    · simpa [put, get?, hk] using ih

theorem get?_put_of_ne {name : String} (h : name ≠ key) :
    (es.put key value).get? name = es.get? name := by
  induction es with
  | nil => simp [put, get?, Ne.symm h]
  | cons e rest ih =>
    obtain ⟨k, v⟩ := e
    by_cases hk : k = key
    · simp [put, get?, hk, Ne.symm h]
    · by_cases hn : k = name <;> simp [put, get?, hk, hn, h, ih]

/-- Nothing changes where a thing is set to what it is. -/
theorem put_of_get? (h : es.get? key = some value) : es.put key value = es := by
  induction es with
  | nil => nomatch h
  | cons e rest ih =>
    obtain ⟨k, v⟩ := e
    by_cases hk : k = key
    · rw [get?, if_pos hk] at h
      cases h
      rw [put, if_pos hk, hk]
    · rw [get?, if_neg hk] at h
      rw [put, if_neg hk, ih h]

/-- Of two things of one name the later one stays. -/
theorem put_put (first value : α) : (es.put key first).put key value = es.put key value := by
  induction es with
  | nil => simp [put]
  | cons e rest ih =>
    obtain ⟨k, v⟩ := e
    by_cases hk : k = key
    · simp [put, hk]
    · simp [put, hk, ih]

theorem get?_append (fs : Entries α) :
    (es ++ fs).get? key = (es.get? key).or (fs.get? key) := by
  induction es with
  | nil => rfl
  | cons e rest ih =>
    obtain ⟨k, v⟩ := e
    rw [List.cons_append, get?, get?]
    split
    · rfl
    · exact ih

theorem get?_append_of_notMem (fs : Entries α) (h : key ∉ es.keys) :
    (es ++ fs).get? key = fs.get? key := by
  rw [get?_append, get?_eq_none_iff.mpr h, Option.none_or]

theorem put_append_of_notMem (value : α) (fs : Entries α) (h : key ∉ es.keys) :
    (es ++ fs).put key value = es ++ fs.put key value := by
  induction es with
  | nil => rfl
  | cons e rest ih =>
    obtain ⟨k, v⟩ := e
    obtain ⟨hk, hrest⟩ := not_or.mp (mt List.mem_cons.mpr h)
    rw [List.cons_append, put, if_neg (Ne.symm hk), ih hrest, List.cons_append]

theorem put_ne_nil : es.put key value ≠ [] := by
  cases es with
  | nil => exact List.cons_ne_nil _ _
  | cons e rest =>
    rw [put]
    split <;> exact List.cons_ne_nil _ _

/-- A thing of a new name goes to the end. -/
theorem put_of_notMem (h : key ∉ es.keys) : es.put key value = es ++ [(key, value)] := by
  have := put_append_of_notMem value [] h
  rwa [List.append_nil] at this

/-- Things of new names go to the end in their order. -/
theorem foldl_put (es fs : Entries α) (h : (es ++ fs).keys.Nodup) :
    fs.foldl (fun es (name, value) => es.put name value) es = es ++ fs := by
  induction fs generalizing es with
  | nil => simp
  | cons f rest ih =>
    obtain ⟨k, v⟩ := f
    have hk : k ∉ es.keys := by
      rw [keys_append, List.nodup_append] at h
      exact fun hmem => h.2.2 k hmem k List.mem_cons_self rfl
    have hrest : (es ++ [(k, v)] ++ rest).keys.Nodup := by simpa using h
    simp only [List.foldl_cons, put_of_notMem hk]
    rw [ih _ hrest, List.append_assoc, List.singleton_append]

theorem keys_put_of_mem (value : α) (h : key ∈ es.keys) : (es.put key value).keys = es.keys := by
  induction es with
  | nil => nomatch h
  | cons e rest ih =>
    obtain ⟨k, v⟩ := e
    by_cases hk : k = key
    · simp [put, keys, hk]
    · have hrest : key ∈ keys rest := (List.mem_cons.mp h).resolve_left (Ne.symm hk)
      rw [put, if_neg hk]
      exact congrArg (k :: ·) (ih hrest)

theorem keys_put_of_notMem (value : α) (h : key ∉ es.keys) :
    (es.put key value).keys = es.keys ++ [key] := by
  rw [put_of_notMem h, keys_append]
  rfl

theorem mem_keys_put_iff {name : String} :
    name ∈ (es.put key value).keys ↔ name ∈ es.keys ∨ name = key := by
  by_cases hkey : key ∈ es.keys
  · rw [keys_put_of_mem value hkey]
    exact ⟨.inl, fun h => h.elim id fun heq => heq ▸ hkey⟩
  · rw [keys_put_of_notMem value hkey, List.mem_append, List.mem_singleton]

/-- An entry is the one that was set last, or was there before. -/
theorem mem_put {e : String × α} (h : e ∈ es.put key value) : e = (key, value) ∨ e ∈ es := by
  induction es with
  | nil => exact .inl (List.mem_singleton.mp h)
  | cons f rest ih =>
    obtain ⟨k, v⟩ := f
    rw [put] at h
    split at h
    · exact (List.mem_cons.mp h).imp_right (List.mem_cons_of_mem _)
    · rcases List.mem_cons.mp h with rfl | h
      · exact .inr List.mem_cons_self
      · exact (ih h).imp_right (List.mem_cons_of_mem _)

theorem keys_put_nodup (value : α) (h : es.keys.Nodup) : (es.put key value).keys.Nodup := by
  by_cases hkey : key ∈ es.keys
  · rwa [keys_put_of_mem value hkey]
  · rw [keys_put_of_notMem value hkey, List.nodup_append]
    refine ⟨h, by simp, fun k hk k' hk' heq => hkey ?_⟩
    rwa [heq, List.mem_singleton.mp hk'] at hk

/-! ## Dropping entries -/

theorem erase_of_notMem (h : key ∉ es.keys) : es.erase key = es := by
  induction es with
  | nil => rfl
  | cons e rest ih =>
    obtain ⟨k, v⟩ := e
    obtain ⟨hk, hrest⟩ := not_or.mp (mt List.mem_cons.mpr h)
    rw [erase, if_neg (Ne.symm hk), ih hrest]

theorem sublist_erase (key : String) (es : Entries α) : (es.erase key).Sublist es := by
  induction es with
  | nil => exact .slnil
  | cons e rest ih =>
    obtain ⟨k, v⟩ := e
    rw [erase]
    split
    · exact .cons _ (.refl rest)
    · exact .cons_cons _ ih

theorem keys_erase_nodup (key : String) (h : es.keys.Nodup) : (es.erase key).keys.Nodup :=
  h.sublist ((sublist_erase key es).map _)

theorem get?_erase_self (h : es.keys.Nodup) : (es.erase key).get? key = none := by
  induction es with
  | nil => rfl
  | cons e rest ih =>
    obtain ⟨k, v⟩ := e
    obtain ⟨hk, hrest⟩ := List.nodup_cons.mp h
    rw [erase]
    split
    · next heq => exact get?_eq_none_iff.mpr (heq ▸ hk)
    · next hne => rw [get?, if_neg hne, ih hrest]

theorem get?_erase_of_ne {name : String} (h : name ≠ key) :
    (es.erase key).get? name = es.get? name := by
  induction es with
  | nil => rfl
  | cons e rest ih =>
    obtain ⟨k, v⟩ := e
    rw [erase]
    split
    · next heq => rw [get?, if_neg (heq ▸ h.symm)]
    · rw [get?, get?, ih]

/-! ## Setting or dropping entries -/

/-- Sets the thing of a name, or drops the entry where there is nothing to set. -/
def assign (key : String) (value? : Option α) (es : Entries α) : Entries α :=
  match value? with
  | some value => es.put key value
  | none => es.erase key

theorem assign_get? (key : String) (es : Entries α) : es.assign key (es.get? key) = es := by
  cases h : es.get? key with
  | none => exact erase_of_notMem (get?_eq_none_iff.mp h)
  | some value => exact put_of_get? h

theorem get?_assign_self {value? : Option α} (h : es.keys.Nodup) :
    (es.assign key value?).get? key = value? := by
  cases value? with
  | none => exact get?_erase_self h
  | some value => exact get?_put_self

theorem get?_assign_of_ne {value? : Option α} {name : String} (h : name ≠ key) :
    (es.assign key value?).get? name = es.get? name := by
  cases value? with
  | none => exact get?_erase_of_ne h
  | some value => exact get?_put_of_ne h

theorem keys_assign_nodup (value? : Option α) (h : es.keys.Nodup) :
    (es.assign key value?).keys.Nodup := by
  cases value? with
  | none => exact keys_erase_nodup key h
  | some value => exact keys_put_nodup value h

theorem mem_assign {value? : Option α} {e : String × α} (h : e ∈ es.assign key value?) :
    (∃ value, value? = some value ∧ e = (key, value)) ∨ e ∈ es := by
  cases value? with
  | none => exact .inr ((sublist_erase key es).subset h)
  | some value => exact (mem_put h).imp_left fun heq => ⟨value, rfl, heq⟩

/-! ## Filling tables -/

section Fold

variable {β : Type} {xs : List β} {name : β → String} {thing : β → α}

/-- What is in a table that was filled one by one is one of these, or was there before. -/
theorem mem_foldl_put {e : String × α}
    (h : e ∈ xs.foldl (fun es x => Entries.put (name x) (thing x) es) es) :
    e ∈ es ∨ ∃ x ∈ xs, e = (name x, thing x) := by
  induction xs generalizing es with
  | nil => exact .inl h
  | cons x xs ih =>
    rcases ih h with h | ⟨y, hy, rfl⟩
    · rcases mem_put h with rfl | h
      · exact .inr ⟨x, List.mem_cons_self, rfl⟩
      · exact .inl h
    · exact .inr ⟨y, List.mem_cons_of_mem _ hy, rfl⟩

theorem keys_foldl_put_nodup (h : es.keys.Nodup) :
    (Entries.keys (xs.foldl (fun es x => Entries.put (name x) (thing x) es) es)).Nodup := by
  induction xs generalizing es with
  | nil => exact h
  | cons x xs ih => exact ih (keys_put_nodup _ h)

end Fold

end Remap.Entries
