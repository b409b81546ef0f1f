import Remap.Proofs.Results
import Remap.Proofs.Xml.Elements

/-!
# Which values have an XML form, and which one

The writer succeeds on a value if the names, the attributes and the texts in it fit, and what it
then writes is given here as a whole. The layout only shows in the line breaks.
-/

namespace Remap.Xml

section Head

variable {key : String} {item : Value} {fields : List (String × Value)}

/-- Whether an entry fits into a start tag or the text behind it, as far as it belongs there. -/
def FitsHead (e : String × Value) : Prop :=
  match roleOf e.1 with
  | .attribute name => isName name = true ∧ e.2.isScalar = true
  | .text => e.2.isScalar = true
  | .child => True

theorem scalarText?_of_isScalar {v : Value} (h : v.isScalar = true) :
    v.scalarText? = some (String.ofList (scalarChars v)) := by
  cases v with
  | array items => cases h
  | object fields => cases h
  | _ => simp [Value.scalarText?, scalarChars]

theorem scalarText?_eq_none {v : Value} (h : v.isScalar = false) : v.scalarText? = none := by
  cases v with
  | array items => rfl
  | object fields => rfl
  | _ => cases h

theorem headOf_cons_of_fits {element : String} {head : Head} (h : FitsHead (key, item)) :
    headOf element head ((key, item) :: fields) =
      headOf element
        ⟨head.attributes ++ (entryAttributes (key, item)).flatMap writtenAttribute,
          if roleOf key = .text then scalarChars item else head.text⟩ fields := by
  unfold FitsHead at h
  unfold entryAttributes
  rw [headOf]
  cases hrole : roleOf key with
  | child => simp
  | text =>
    rw [hrole] at h
    simp [scalarText?_of_isScalar h]
  | «attribute» name =>
    rw [hrole] at h
    simp [h.1, scalarText?_of_isScalar h.2, writtenAttribute]

theorem headOf_cons_of_not_fits {element : String} {head out : Head}
    (h : ¬FitsHead (key, item)) : headOf element head ((key, item) :: fields) ≠ .ok out := by
  unfold FitsHead at h
  rw [headOf]
  cases hrole : roleOf key with
  | child => simp [hrole] at h
  | text =>
    simp only [hrole, Bool.not_eq_true] at h
    simp [scalarText?_eq_none h]
  | «attribute» name =>
    simp only [hrole, not_and, Bool.not_eq_true] at h
    cases hname : isName name with
    | false => simp [hname]
    | true => simp [hname, scalarText?_eq_none (h hname)]

theorem headOf_eq_ok_iff {element : String} {out : Head} (hkeys : (Entries.keys fields).Nodup) :
    ∀ (head : Head), (head.text = [] ∨ textKey ∉ Entries.keys fields) →
      (headOf element head fields = .ok out ↔
        (∀ e ∈ fields, FitsHead e) ∧
          out = ⟨head.attributes ++ (attributesIn fields).flatMap writtenAttribute,
            head.text ++ textIn fields⟩) := by
  induction fields with
  | nil =>
    intro head _
    simp [headOf, attributesIn, textIn, eq_comm]
  | cons e rest ih =>
    obtain ⟨key, item⟩ := e
    intro head hhead
    obtain ⟨hnew, hrest⟩ := List.nodup_cons.mp hkeys
    by_cases hfits : FitsHead (key, item)
    · rw [headOf_cons_of_fits hfits]
      by_cases hrole : roleOf key = .text
      · have hkey := roleOf_eq_text_iff.mp hrole
        have hhead : head.text = [] := hhead.resolve_right (by simp [Entries.keys, hkey])
        rw [ih hrest _ (.inr (hkey ▸ hnew))]
        simp [hfits, hrole, hhead, attributesIn, textIn, entryText]
      · have hhead : head.text = [] ∨ textKey ∉ Entries.keys rest :=
          hhead.imp_right fun h hmem => h (List.mem_cons_of_mem _ hmem)
        have hrest := ih hrest ⟨head.attributes ++
          (entryAttributes (key, item)).flatMap writtenAttribute, head.text⟩ hhead
        rw [if_neg hrole, hrest]
        simp [hfits, hrole, attributesIn, textIn, entryText]
    · simp [headOf_cons_of_not_fits hfits, hfits]

end Head

section Siblings

variable {pretty : Bool} {depth : Nat} {name : String} {es fs : List (String × Value)}

/-- Elements that stand one after another. -/
def writeElements (pretty : Bool) (depth : Nat) : List (String × Value) →
    Except WriteFault (List Char)
  | [] => .ok []
  | (name, v) :: rest => do
    let first ← writeElement pretty depth name v
    let others ← writeElements pretty depth rest
    .ok (newline pretty depth ++ first ++ others)

theorem writeElements_append : writeElements pretty depth (es ++ fs) = (do
    let first ← writeElements pretty depth es
    let others ← writeElements pretty depth fs
    .ok (first ++ others)) := by
  induction es with
  | nil => cases h : writeElements pretty depth fs <;> simp [writeElements, h, bind, Except.bind]
  | cons e rest ih =>
    obtain ⟨name, v⟩ := e
    rw [List.cons_append, writeElements, writeElements, ih]
    cases writeElement pretty depth name v with
    | error fault => rfl
    | ok first =>
      cases writeElements pretty depth rest with
      | error fault => rfl
      | ok others =>
        cases writeElements pretty depth fs with
        | error fault => rfl
        | ok more => simp [bind, Except.bind]

theorem writeItems_eq (items : List Value) :
    writeItems pretty depth name items = writeElements pretty depth (items.map (name, ·)) := by
  induction items with
  | nil => simp [writeItems, writeElements]
  | cons item rest ih => rw [writeItems, List.map_cons, writeElements, ih]

theorem writeElements_singleton {v : Value} : writeElements pretty depth [(name, v)] =
    (writeElement pretty depth name v).map (newline pretty depth ++ ·) := by
  rw [writeElements, writeElements]
  cases writeElement pretty depth name v <;> simp [bind, Except.bind, Except.map]

/-- The child entries of an element are written as the elements inside it. -/
theorem writeChildren_eq (fields : List (String × Value)) :
    writeChildren pretty depth fields = writeElements pretty depth (elements fields) := by
  induction fields with
  | nil => simp [writeChildren, writeElements]
  | cons e rest ih =>
    obtain ⟨key, item⟩ := e
    rw [elements_cons, writeElements_append, ← ih, writeChildren.eq_def, entryElements]
    cases hrole : roleOf key with
    | child =>
      cases item with
      | array items => simp only [hrole, if_true, members, writeItems_eq]
      | _ =>
        simp only [hrole, if_true, members, List.map_cons, List.map_nil, writeElements_singleton]
    | _ => simp [hrole, writeElements]

end Siblings

section Render

/-- Whether a value has an XML form. -/
inductive Written : Value → Prop
  | intro {v : Value} (hv : v.items? = none) (hhead : ∀ e ∈ entriesOf v, FitsHead e)
      (hnames : ∀ e ∈ elements (entriesOf v), isName e.1.toList = true)
      (hinner : ∀ e ∈ elements (entriesOf v), Written e.2) : Written v

theorem written_iff {v : Value} : Written v ↔
    v.items? = none ∧ (∀ e ∈ entriesOf v, FitsHead e) ∧
      ∀ e ∈ elements (entriesOf v), isName e.1.toList = true ∧ Written e.2 := by
  constructor
  · rintro ⟨hv, hhead, hnames, hinner⟩
    exact ⟨hv, hhead, fun e he => ⟨hnames e he, hinner e he⟩⟩
  · rintro ⟨hv, hhead, hinner⟩
    exact ⟨hv, hhead, fun e he => (hinner e he).1, fun e he => (hinner e he).2⟩

/-- The text of an element with the given attributes, text and inner elements. An element without
any inside is one tag. -/
def elementText (name : List Char) (attributes : List (List Char × List Char))
    (text : List Char) (inside : Option (List Char)) : List Char :=
  if text.isEmpty && inside.isNone then '<' :: startTag name attributes ++ ['/', '>']
  else '<' :: startTag name attributes ++ '>' :: escape text ++ inside.getD []
    ++ '<' :: '/' :: name ++ ['>']

/-- Whether the elements inside the element of a value stand on lines of their own, which they do
not beside text. -/
def spread (pretty : Bool) (v : Value) : Bool := pretty && (textIn (entriesOf v)).isEmpty

/-- What a value is written as, if it has an XML form. -/
def render (pretty : Bool) (depth : Nat) (name : String) (v : Value) : List Char :=
  let inside := (elements (entriesOf v)).attach.map fun ⟨e, _⟩ =>
    newline (spread pretty v) (depth + 1) ++ render (spread pretty v) (depth + 1) e.1 e.2
  elementText name.toList (attributesIn (entriesOf v)) (textIn (entriesOf v))
    (if hasChildren (entriesOf v) then some (inside.flatten ++ newline (spread pretty v) depth)
    else none)
termination_by sizeOf v
decreasing_by exact sizeOf_lt_of_mem_elements ‹_›

variable {pretty : Bool} {depth : Nat} {name : String} {v : Value} {text : List Char}

theorem render_eq : render pretty depth name v =
    let inside := (elements (entriesOf v)).map fun e =>
      newline (spread pretty v) (depth + 1) ++ render (spread pretty v) (depth + 1) e.1 e.2
    elementText name.toList (attributesIn (entriesOf v)) (textIn (entriesOf v))
      (if hasChildren (entriesOf v) then some (inside.flatten ++ newline (spread pretty v) depth)
      else none) := by
  rw [render]
  simp only [List.map_subtype, List.unattach_attach]

theorem elements_of_not_hasChildren {fields : List (String × Value)}
    (h : hasChildren fields = false) : elements fields = [] := by
  rw [hasChildren, List.any_eq_false] at h
  rw [elements, List.flatMap_eq_nil_iff]
  intro e he
  have hrole : roleOf e.1 ≠ .child := by simpa using h e he
  rw [entryElements, if_neg hrole]

theorem writeElements_eq_ok_iff {es : List (String × Value)}
    (h : ∀ e ∈ es, ∀ text, writeElement pretty depth e.1 e.2 = .ok text ↔
      isName e.1.toList = true ∧ Written e.2 ∧ text = render pretty depth e.1 e.2) :
    writeElements pretty depth es = .ok text ↔
      (∀ e ∈ es, isName e.1.toList = true ∧ Written e.2) ∧
        text = (es.map fun e => newline pretty depth ++ render pretty depth e.1 e.2).flatten := by
  induction es generalizing text with
  | nil =>
    rw [writeElements, Except.ok.injEq, @eq_comm _ []]
    simp
  | cons e rest ih =>
    obtain ⟨name, v⟩ := e
    have hfirst := h _ List.mem_cons_self
    have hrest := fun text => @ih text fun e he => h e (List.mem_cons_of_mem _ he)
    rw [writeElements, bind_eq_ok_iff]
    simp only [bind_eq_ok_iff, hfirst, hrest]
    constructor
    · rintro ⟨first, ⟨hname, hv, rfl⟩, others, ⟨hall, rfl⟩, heq⟩
      cases heq
      exact ⟨List.forall_mem_cons.mpr ⟨⟨hname, hv⟩, hall⟩, by simp⟩
    · rintro ⟨hall, rfl⟩
      obtain ⟨⟨hname, hv⟩, hall⟩ := List.forall_mem_cons.mp hall
      exact ⟨_, ⟨hname, hv, rfl⟩, _, ⟨hall, rfl⟩, by simp⟩

/-- A scalar is written as an element that holds text only. -/
theorem writeElement_of_isScalar (h : v.isScalar = true) :
    writeElement pretty depth name v = writeElement pretty depth name (.object [(textKey, v)]) := by
  have hfits : FitsHead (textKey, v) := by simpa [FitsHead] using h
  have hhead : headOf name ⟨[], []⟩ [(textKey, v)] = .ok ⟨[], scalarChars v⟩ := by
    rw [headOf_cons_of_fits hfits]
    simp [headOf, entryAttributes]
  have hchildren : hasChildren [(textKey, v)] = false := by simp [hasChildren]
  have hscalar : writeElement pretty depth name v =
      if isName name.toList then .ok (textElement name (scalarChars v))
      else .error (.badElementName name) := by
    cases v with
    | array items => cases h
    | object fields => cases h
    | _ => simp only [writeElement, scalarChars]
  rw [hscalar, writeElement, hhead, hchildren]
  simp only [writeChildren_eq, elements_text, writeElements]
  cases htext : scalarChars v with
  | nil => simp [textElement, emptyTag, bind, Except.bind]
  | cons c text => simp [textElement, bind, Except.bind]

/-- What is no array is written through its entries. -/
theorem writeElement_entriesOf (h : v.items? = none) :
    writeElement pretty depth name v = writeElement pretty depth name (.object (entriesOf v)) := by
  cases v with
  | array items => cases h
  | object fields => rfl
  | _ => exact writeElement_of_isScalar rfl

/-- An object is written if its entries fit and the elements inside it can be written. -/
theorem writeElement_object_eq_ok_iff {fields : List (String × Value)}
    (hkeys : (Entries.keys fields).Nodup)
    (h : ∀ e ∈ elements fields, ∀ pretty depth text,
      writeElement pretty depth e.1 e.2 = .ok text ↔
        isName e.1.toList = true ∧ Written e.2 ∧ text = render pretty depth e.1 e.2) :
    writeElement pretty depth name (.object fields) = .ok text ↔
      isName name.toList = true ∧ Written (.object fields) ∧
        text = render pretty depth name (.object fields) := by
  rw [writeElement, written_iff, render_eq]
  by_cases hname : isName name.toList = true
  · simp only [hname, if_true, bind_eq_ok_iff, headOf_eq_ok_iff hkeys ⟨[], []⟩ (.inl rfl),
      List.nil_append, entriesOf, Value.items?, spread, true_and, and_assoc, exists_and_left,
      exists_eq_left]
    refine and_congr_right fun _ => ?_
    rcases Bool.eq_false_or_eq_true (hasChildren fields) with hchildren | hchildren
    · simp only [hchildren, Bool.not_true, Bool.and_false, Bool.false_eq_true, if_false, if_true,
        bind_eq_ok_iff, writeChildren_eq,
        writeElements_eq_ok_iff fun e he text => h e he (pretty && (textIn fields).isEmpty)
          (depth + 1) text, and_assoc, exists_and_left, exists_eq_left]
      simp [elementText, startTag, endTag, @eq_comm _ text]
    · simp only [hchildren, elements_of_not_hasChildren hchildren, writeChildren_eq, writeElements]
      cases textIn fields with
      | nil => simp [elementText, startTag, @eq_comm _ text]
      | cons c own => simp [elementText, startTag, endTag, bind, Except.bind, @eq_comm _ text]
  · simp [hname]

/-- The writer succeeds on the values that have an XML form, in any layout. -/
theorem writeElement_eq_ok_iff (h : v.Distinct) :
    writeElement pretty depth name v = .ok text ↔
      isName name.toList = true ∧ Written v ∧ text = render pretty depth name v := by
  induction v using elements_induction generalizing pretty depth name text with
  | step v ih =>
    have hinner : ∀ e ∈ elements (entriesOf v), ∀ pretty depth text,
        writeElement pretty depth e.1 e.2 = .ok text ↔
          isName e.1.toList = true ∧ Written e.2 ∧ text = render pretty depth e.1 e.2 :=
      fun e he pretty depth text => ih e he (elements_distinct h he)
    cases hv : v.items? with
    | none =>
      rw [writeElement_entriesOf hv,
        writeElement_object_eq_ok_iff (entriesOf_keys_nodup h) hinner, written_iff, written_iff,
        render_eq, render_eq, hv]
      rfl
    | some items =>
      rw [written_iff, hv]
      cases v with
      | array items =>
        rw [writeElement]
        split <;> simp
      | _ => cases hv

end Render

end Remap.Xml
