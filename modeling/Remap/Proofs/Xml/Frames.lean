import Mathlib.Data.List.Induction
import Remap.Proofs.Xml.Elements
import Remap.Proofs.Xml.Reading

/-!
# What an element comes to

The value of an element in terms of its attributes, its text and the children that were added to
it: siblings of one name come together under the first of them, and line breaks beside children
leave no trace.
-/

namespace Remap.Xml

section Gather

variable {name key : String} {value : Value} {children es : Entries Value} {vs : List Value}
  {inside fields : List (String × Value)}

/-- The children of an element with one more. A second child of a name starts an array. -/
def join (children : Entries Value) (name : String) (value : Value) : Entries Value :=
  children.put name <|
    match children.get? name with
    | some (.array items) => .array (items ++ [value])
    | some first => .array [first, value]
    | none => value

theorem Frame.addChild_eq (frame : Frame) :
    frame.addChild name value = { frame with children := join frame.children name value } := rfl

/-- The children of an element to which children were added one after another. -/
def gather (inside : List (String × Value)) : Entries Value :=
  inside.foldl (fun children e => join children e.1 e.2) []

theorem gather_concat (inside : List (String × Value)) :
    gather (inside ++ [(name, value)]) = join (gather inside) name value := by
  rw [gather, List.foldl_concat]
  rfl

theorem join_ne_nil : join children name value ≠ [] := Entries.put_ne_nil

theorem gather_eq_nil_iff : gather inside = [] ↔ inside = [] := by
  rcases List.eq_nil_or_concat inside with rfl | ⟨before, ⟨name, value⟩, rfl⟩
  · simp [gather]
  · simp [gather_concat, join_ne_nil]

theorem gather_keys_nodup : (gather inside).keys.Nodup := by
  induction inside using List.reverseRecOn with
  | nil => exact List.nodup_nil
  | append_singleton inside e ih =>
    rw [gather_concat]
    exact Entries.keys_put_nodup _ ih

theorem mem_of_mem_gather_keys (h : key ∈ (gather inside).keys) : key ∈ inside.map (·.1) := by
  induction inside using List.reverseRecOn with
  | nil => nomatch h
  | append_singleton inside e ih =>
    rw [gather_concat] at h
    rw [List.map_append, List.mem_append]
    rcases Entries.mem_keys_put_iff.mp h with h | h
    · exact .inl (ih h)
    · exact .inr (by simp [h])

/-- What siblings of one name come to. -/
def siblings : List Value → Option Value
  | [] => none
  | [v] => some v
  | vs => some (.array vs)

/-- The entry for siblings of one name, if there are any. -/
def siblingEntries (name : String) (vs : List Value) : Entries Value :=
  (siblings vs).toList.map (name, ·)

theorem foldl_join_siblings (hnew : name ∉ es.keys) (hvs : ∀ v ∈ vs, v.items? = none) :
    vs.foldl (fun children v => join children name v) es = es ++ siblingEntries name vs := by
  induction vs using List.reverseRecOn with
  | nil => simp [siblingEntries, siblings]
  | append_singleton vs v ih =>
    have hbefore := fun w hw => hvs w (List.mem_append_left [v] hw)
    rw [List.foldl_concat, ih hbefore, join, Entries.get?_append_of_notMem _ hnew,
      Entries.put_append_of_notMem _ _ hnew]
    -- The entry for the siblings so far is the only one of their name.
    match vs, hbefore with
    | [], _ => simp [siblingEntries, siblings, Entries.get?, Entries.put]
    | [w], hbefore =>
      have hw := hbefore w List.mem_cons_self
      cases w with
      | array items => cases hw
      | _ => simp [siblingEntries, siblings, Entries.get?, Entries.put]
    | _ :: _ :: _, _ => simp [siblingEntries, siblings, Entries.get?, Entries.put]

/-- The entries of the children that child entries are read back as, if each of their members
comes to what `f` says. -/
def childEntries (f : Value → Value) (fields : List (String × Value)) : Entries Value :=
  fields.flatMap fun e =>
    if roleOf e.1 = .child then siblingEntries e.1 ((members e.2).map f) else []

theorem siblingEntries_cases (name : String) (vs : List Value) :
    siblingEntries name vs = [] ∨ ∃ v, siblingEntries name vs = [(name, v)] := by
  unfold siblingEntries
  cases siblings vs with
  | none => exact .inl rfl
  | some v => exact .inr ⟨v, rfl⟩

theorem foldl_join_elements {f : Value → Value} (hf : ∀ v, (f v).items? = none)
    (h : (es ++ fields).keys.Nodup) :
    ((elements fields).map fun e => (e.1, f e.2)).foldl (fun children e => join children e.1 e.2) es
      = es ++ childEntries f fields := by
  induction fields generalizing es with
  | nil => simp [childEntries]
  | cons e rest ih =>
    obtain ⟨key, item⟩ := e
    have hkey : key ∉ es.keys := by
      rw [Entries.keys_append, List.nodup_append] at h
      exact fun hmem => h.2.2 key hmem key List.mem_cons_self rfl
    have hrest : (es ++ rest).keys.Nodup :=
      h.sublist (List.Sublist.map _ ((List.sublist_cons_self _ _).append_left _))
    rw [elements_cons, List.map_append, List.foldl_append, entryElements, childEntries,
      List.flatMap_cons, ← childEntries]
    by_cases hrole : roleOf key = .child
    · have hvs : ∀ v ∈ (members item).map f, v.items? = none := by
        intro v hv
        obtain ⟨w, -, rfl⟩ := List.mem_map.mp hv
        exact hf w
      have hfirst : (((members item).map (key, ·)).map fun e => (e.1, f e.2)).foldl
          (fun children e => join children e.1 e.2) es =
            es ++ siblingEntries key ((members item).map f) := by
        rw [← foldl_join_siblings hkey hvs, List.foldl_map, List.foldl_map, List.foldl_map]
      have hmore : (es ++ siblingEntries key ((members item).map f) ++ rest).keys.Nodup := by
        rcases siblingEntries_cases key ((members item).map f) with hnone | ⟨v, hone⟩
        · rwa [hnone, List.append_nil]
        · simpa [hone, Entries.keys] using h
      rw [if_pos hrole, if_pos hrole, hfirst, ih hmore, List.append_assoc]
    · rw [if_neg hrole, if_neg hrole]
      exact ih hrest

/-- Where no key occurs twice, the members of each child entry come together again. -/
theorem gather_elements {f : Value → Value} (hf : ∀ v, (f v).items? = none)
    (h : (Entries.keys fields).Nodup) :
    gather ((elements fields).map fun e => (e.1, f e.2)) = childEntries f fields :=
  foldl_join_elements hf h

end Gather

section Value

variable {name : String} {attributes : List (List Char × List Char)} {text before after : List Char}
  {inside : List (String × Value)} {frame : Frame}

/-- The value of an element with the given attributes, text and children. -/
def elementValue (attributes : Entries Value) (text : List Char) (children : Entries Value) :
    Value :=
  if attributes.isEmpty && children.isEmpty then
    if text.isEmpty then .null else infer text
  else
    .object (attributes ++ (if text.isEmpty then [] else [(textKey, infer text)]) ++ children)

theorem infer_isScalar (text : List Char) : (infer text).isScalar = true := by
  simp only [infer]
  split
  · rfl
  · rfl
  · split <;> rfl

theorem items?_of_isScalar {v : Value} (h : v.isScalar = true) : v.items? = none := by
  cases v with
  | array items => cases h
  | _ => rfl

/-- No element comes to an array. -/
theorem Frame.value_items? : frame.value.items? = none := by
  simp only [Frame.value]
  split
  · split
    · rfl
    · exact items?_of_isScalar (infer_isScalar _)
  · rfl

/-- Whether the keys of the attributes and of the children of an element are such keys, each of
them once. -/
structure Frame.Sorted (frame : Frame) : Prop where
  attributes : ∀ key ∈ frame.attributes.map (·.1), ∃ name, roleOf key = .attribute name
  children : ∀ key ∈ frame.children.map (·.1), roleOf key = .child
  attributes_nodup : (frame.attributes.map (·.1)).Nodup
  children_nodup : (frame.children.map (·.1)).Nodup

theorem Frame.Sorted.keys_nodup (h : frame.Sorted) (own : Entries Value)
    (hown : ∀ key ∈ own.keys, roleOf key = .text) (hnodup : own.keys.Nodup) :
    (Entries.keys (frame.attributes ++ own ++ frame.children)).Nodup := by
  rw [Entries.keys_append, Entries.keys_append, List.nodup_append, List.nodup_append]
  refine ⟨⟨h.attributes_nodup, hnodup, ?_⟩, h.children_nodup, ?_⟩
  · rintro key hkey _ hother rfl
    obtain ⟨name, hname⟩ := h.attributes key hkey
    rw [hown key hother] at hname
    cases hname
  · rintro key hkey _ hother rfl
    rcases List.mem_append.mp hkey with hkey | hkey
    · obtain ⟨name, hname⟩ := h.attributes key hkey
      rw [h.children key hother] at hname
      cases hname
    · have hrole := hown key hkey
      rw [h.children key hother] at hrole
      cases hrole

theorem Frame.Sorted.value_eq (h : frame.Sorted) :
    frame.value = elementValue frame.attributes frame.content frame.children := by
  have htext : textKey ∉ frame.attributes.map (·.1) := by
    intro hmem
    obtain ⟨name, hname⟩ := h.attributes _ hmem
    rw [roleOf_textKey] at hname
    cases hname
  have hput : Entries.put "#text" (infer frame.content) frame.attributes =
      frame.attributes ++ [(textKey, infer frame.content)] := Entries.put_of_notMem htext
  rw [Frame.value, elementValue]
  split
  · rfl
  · cases frame.content.isEmpty with
    | true =>
      have hkeys := h.keys_nodup [] (by nofun) List.nodup_nil
      rw [if_pos rfl, if_pos rfl, List.append_nil] at *
      exact congrArg Value.object (Entries.foldl_put _ _ hkeys)
    | false =>
      have hkeys := h.keys_nodup [(textKey, infer frame.content)] (by simp [Entries.keys])
        (by simp [Entries.keys])
      rw [if_neg Bool.false_ne_true, if_neg Bool.false_ne_true, hput]
      exact congrArg Value.object (Entries.foldl_put _ _ hkeys)

section Parts

/-- Whether a text consists of white space. -/
abbrev IsBlankText (text : List Char) : Prop := text.all Text.isBlank = true

/-- The runs of text in an element, of which one is added. -/
def runs (text : List Char) : List TextRun := if text.isEmpty then [] else [⟨text, false⟩]

/-- An element as it has been read: behind its start tag stand its text, the elements inside it,
each after the same line break, and a last line break. -/
def Frame.ofParts (name : String) (attributes : List (List Char × List Char))
    (text before : List Char) (inside : List (String × Value)) (after : List Char) : Frame :=
  (inside.foldl (fun frame e => (frame.addRun before).addChild e.1 e.2)
    (Frame.addRun ⟨name, readEntries attributes, [], []⟩ text)).addRun after

theorem Frame.addRun_eq : frame.addRun text = { frame with text := frame.text ++ runs text } := by
  unfold Frame.addRun runs
  split
  · rw [List.append_nil]
  · rfl

theorem Frame.foldl_addChild :
    inside.foldl (fun frame e => (frame.addRun before).addChild e.1 e.2) frame =
      ⟨frame.name, frame.attributes,
        inside.foldl (fun children e => join children e.1 e.2) frame.children,
        frame.text ++ inside.flatMap fun _ => runs before⟩ := by
  induction inside generalizing frame with
  | nil => simp
  | cons e inside ih =>
    rw [List.foldl_cons, ih]
    simp [Frame.addRun_eq, Frame.addChild_eq]

theorem Frame.ofParts_eq : Frame.ofParts name attributes text before inside after =
    ⟨name, readEntries attributes, gather inside,
      runs text ++ (inside.flatMap fun _ => runs before) ++ runs after⟩ := by
  rw [Frame.ofParts, Frame.foldl_addChild, Frame.addRun_eq, Frame.addRun_eq]
  rfl

/-- What is left of a run of text; beside children, blank text is not. -/
theorem content_runs (alone : Bool) (text : List Char) :
    ((runs text).filter fun run => alone || !run.isLayout).flatMap (·.content) =
      if !alone && text.all Text.isBlank then [] else text := by
  unfold runs
  cases text with
  | nil => simp
  | cons c text => cases alone <;> cases hblank : (c :: text).all Text.isBlank <;>
      simp [TextRun.isLayout, hblank]

/-- The text of an element that is read back: beside children, blank text is lost, and without
children the line break before the end tag is read as text. -/
theorem Frame.content_ofParts (hbefore : IsBlankText before) (hafter : IsBlankText after) :
    (Frame.ofParts name attributes text before inside after).content =
      if inside.isEmpty then text ++ after
      else if text.all Text.isBlank then [] else text := by
  have halone : (gather inside).isEmpty = inside.isEmpty := by
    rw [Bool.eq_iff_iff, List.isEmpty_iff, List.isEmpty_iff, gather_eq_nil_iff]
  rw [Frame.content, Frame.ofParts_eq]
  simp only [halone, List.filter_append, List.flatMap_append, content_runs, List.filter_flatMap,
    List.flatMap_assoc, hbefore, hafter]
  cases inside with
  | nil => simp
  | cons e inside => simp

theorem Frame.sorted_ofParts (hattributes : (attributes.map (·.1)).Nodup)
    (hinside : ∀ e ∈ inside, roleOf e.1 = .child) :
    (Frame.ofParts name attributes text before inside after).Sorted := by
  rw [Frame.ofParts_eq]
  refine ⟨?_, ?_, readEntries_keys_nodup hattributes, gather_keys_nodup⟩
  · intro key hkey
    have hkeys : key ∈ (attributes.map (·.1)).map attributeKey := readEntries_keys ▸ hkey
    obtain ⟨name, -, rfl⟩ := List.mem_map.mp hkeys
    exact ⟨name, roleOf_attributeKey⟩
  · intro key hkey
    obtain ⟨e, he, rfl⟩ := List.mem_map.mp (mem_of_mem_gather_keys hkey)
    exact hinside e he

/-- An element with what is made of the entries of a value has each key once. -/
theorem Frame.sorted_elements {fields : List (String × Value)}
    (hkeys : (Entries.keys fields).Nodup) (f : Value → Value) :
    (Frame.ofParts name (attributesIn fields) text before
      ((elements fields).map fun e => (e.1, f e.2)) after).Sorted := by
  refine sorted_ofParts (attributesIn_names_nodup hkeys) fun e he => ?_
  obtain ⟨inner, hinner, rfl⟩ := List.mem_map.mp he
  have hrole : roleOf inner.1 = .child := role_of_mem_elements hinner
  exact hrole

end Parts

end Value

end Remap.Xml
