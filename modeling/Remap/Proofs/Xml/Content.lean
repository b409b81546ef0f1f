import Remap.Proofs.Xml.Echo

/-!
# Values that XML represents

The content that the reader makes of elements: attributes come first, then text, then children, and
every scalar has a text that is typed as the scalar again. Such a value comes back as it is, except
where blank text stands beside elements, for the reader takes that for layout.
-/

namespace Remap

/-- Whether the text of a number is read as that number. -/
def Decimal.readsBack (n : Float) : Bool := (readNumber? (canonicalText n)).any (· == n)

namespace Xml

/-- Whether the text of a scalar is typed as the scalar again. -/
def isStable : Value → Bool
  | .bool _ => true
  | .number n => Decimal.readsBack n
  | .string s => s != "true" && s != "false" && (Decimal.readNumber? s).isNone
  | _ => false

/-- The entries of an element: attributes, text and children. -/
def fieldsOf (attributes : List (String × Value)) (text : Option Value)
    (children : List (String × Value)) : List (String × Value) :=
  attributes ++ text.toList.map (textKey, ·) ++ children

/-- Whether attributes, text and children may be the entries of an element, which has more than
text. A child entry holds one element, or an array of several. -/
structure Fits (attributes : List (String × Value)) (text : Option Value)
    (children : List (String × Value)) : Prop where
  keys_nodup : (Entries.keys (fieldsOf attributes text children)).Nodup
  has_more : attributes ≠ [] ∨ children ≠ []
  attributes : ∀ a ∈ attributes, ∃ name, a.1 = attributeKey name ∧ isName name = true ∧
    isStable a.2 = true
  text : ∀ t ∈ text, isStable t = true ∧ scalarChars t ≠ []
  children : ∀ c ∈ children, isName c.1.toList = true ∧
    ∀ items, c.2 = .array items → 2 ≤ items.length

/-- The content of an element: nothing, a scalar, or an object of attributes, text and children. -/
inductive Content : Value → Prop
  | null : Content .null
  | scalar {v : Value} (hv : isStable v = true) (htext : scalarChars v ≠ []) : Content v
  | object {attributes children : List (String × Value)} {text : Option Value}
      (hfits : Fits attributes text children)
      (hmembers : ∀ c ∈ children, ∀ m ∈ members c.2, Content m) :
      Content (.object (fieldsOf attributes text children))

/-- Whether the text of an element is blank and stands beside other elements. -/
def hidesOwnText (v : Value) : Bool :=
  !(elements (entriesOf v)).isEmpty && !(textIn (entriesOf v)).isEmpty &&
    (textIn (entriesOf v)).all Text.isBlank

/-- Whether blank text stands beside elements somewhere in a value. -/
def hidesText (v : Value) : Bool :=
  hidesOwnText v || (elements (entriesOf v)).attach.any fun ⟨e, _⟩ => hidesText e.2
termination_by sizeOf v
decreasing_by exact sizeOf_lt_of_mem_elements ‹_›

theorem hidesText_eq (v : Value) :
    hidesText v = (hidesOwnText v || (elements (entriesOf v)).any fun e => hidesText e.2) := by
  rw [hidesText]
  simp only [List.any_subtype, List.unattach_attach]

section Stable

variable {v : Value}

theorem isScalar_of_isStable (h : isStable v = true) : v.isScalar = true := by
  cases v <;> first | rfl | cases h

theorem infer_of_ne {s : String} (htrue : s ≠ "true") (hfalse : s ≠ "false") :
    infer s.toList = match Decimal.readNumber? s with
      | some n => .number n
      | none => .string s := by
  unfold infer
  rw [String.ofList_toList]
  dsimp only
  split
  · exact absurd rfl htrue
  · exact absurd rfl hfalse
  · rfl

theorem infer_of_readNumber? {s : String} {n : Float} (h : Decimal.readNumber? s = some n) :
    infer s.toList = .number n := by
  have hword : ∀ word ∈ ["true", "false"], Decimal.readNumber? word = none := by decide
  have hne : ∀ word ∈ ["true", "false"], s ≠ word := by
    rintro word hmem rfl
    rw [hword s hmem] at h
    cases h
  rw [infer_of_ne (hne "true" (by simp)) (hne "false" (by simp)), h]

theorem infer_agrees (h : isStable v = true) : (infer (scalarChars v)).agrees v = true := by
  cases v with
  | bool b => cases b <;> decide
  | number n =>
    obtain ⟨m, hm, hmn⟩ := (Option.any_eq_true _ _).mp h
    have htext : scalarChars (.number n) = (Decimal.canonicalText n).toList := rfl
    rw [htext, infer_of_readNumber? hm, Value.agrees]
    exact hmn
  | string s =>
    simp only [isStable, Bool.and_eq_true, bne_iff_ne, Option.isNone_iff_eq_none] at h
    obtain ⟨⟨htrue, hfalse⟩, hnumber⟩ := h
    have htext : scalarChars (.string s) = s.toList := rfl
    rw [htext, infer_of_ne htrue hfalse, hnumber, Value.agrees, beq_self_eq_true]
  | _ => cases h

end Stable

namespace Fits

variable {attributes children : List (String × Value)} {text : Option Value}

theorem role_attribute (h : Fits attributes text children) {a : String × Value}
    (ha : a ∈ attributes) : ∃ name, roleOf a.1 = .attribute name := by
  obtain ⟨name, hkey, -, -⟩ := h.attributes a ha
  exact ⟨name, hkey ▸ roleOf_attributeKey⟩

theorem role_child (h : Fits attributes text children) {c : String × Value} (hc : c ∈ children) :
    roleOf c.1 = .child :=
  roleOf_of_isName (h.children c hc).1

theorem flatMap_fieldsOf {α : Type} (f : String × Value → List α) :
    (fieldsOf attributes text children).flatMap f =
      attributes.flatMap f ++ (text.elim [] fun t => f (textKey, t)) ++ children.flatMap f := by
  cases text <;> simp [fieldsOf]

theorem attributesIn_eq (h : Fits attributes text children) :
    readEntries (attributesIn (fieldsOf attributes text children)) =
      attributes.map fun a => (a.1, infer (scalarChars a.2)) := by
  have hchildren : children.flatMap entryAttributes = [] := by
    rw [List.flatMap_eq_nil_iff]
    intro c hc
    rw [entryAttributes, h.role_child hc]
  have htext : (text.elim [] fun t => entryAttributes (textKey, t)) = [] := by
    cases text <;> simp [entryAttributes]
  have hattributes : attributes.flatMap (fun a => readEntries (entryAttributes a)) =
      attributes.flatMap fun a => [(a.1, infer (scalarChars a.2))] := by
    refine List.flatMap_congr fun a ha => ?_
    obtain ⟨name, hname⟩ := h.role_attribute ha
    rw [entryAttributes, hname, eq_attributeKey_of_roleOf hname]
    rfl
  rw [attributesIn, flatMap_fieldsOf, hchildren, htext, List.append_nil, List.append_nil,
    readEntries, List.map_flatMap]
  exact hattributes.trans (List.map_eq_flatMap ..).symm

theorem textIn_eq (h : Fits attributes text children) :
    textIn (fieldsOf attributes text children) = text.elim [] scalarChars := by
  have hattributes : attributes.flatMap entryText = [] := by
    rw [List.flatMap_eq_nil_iff]
    intro a ha
    obtain ⟨name, hname⟩ := h.role_attribute ha
    simp [entryText, hname]
  have hchildren : children.flatMap entryText = [] := by
    rw [List.flatMap_eq_nil_iff]
    intro c hc
    simp [entryText, h.role_child hc]
  rw [textIn, flatMap_fieldsOf, hattributes, hchildren]
  cases text <;> simp [entryText]

/-- Attributes and text are no children, whatever is made of these. -/
theorem flatMap_children (h : Fits attributes text children) {α : Type}
    {f : String × Value → List α} (hf : ∀ e, roleOf e.1 ≠ .child → f e = []) :
    (fieldsOf attributes text children).flatMap f = children.flatMap f := by
  have hattributes : attributes.flatMap f = [] := by
    rw [List.flatMap_eq_nil_iff]
    intro a ha
    obtain ⟨name, hname⟩ := h.role_attribute ha
    exact hf a (by simp [hname])
  have htext : (text.elim [] fun t => f (textKey, t)) = [] := by
    cases text with
    | none => rfl
    | some t => exact hf _ (by simp)
  rw [flatMap_fieldsOf, hattributes, htext, List.append_nil, List.nil_append]

theorem elements_eq (h : Fits attributes text children) :
    elements (fieldsOf attributes text children) = elements children :=
  h.flatMap_children fun _ he => if_neg he

theorem childEntries_eq (h : Fits attributes text children) (f : Value → Value) :
    childEntries f (fieldsOf attributes text children) = childEntries f children :=
  h.flatMap_children fun _ he => if_neg he

theorem hasChildren_eq_false (h : Fits attributes text []) :
    hasChildren (fieldsOf attributes text []) = false := by
  rw [hasChildren, List.any_eq_false]
  intro e he
  rw [fieldsOf, List.append_nil, List.mem_append] at he
  rcases he with he | he
  · obtain ⟨name, hname⟩ := h.role_attribute he
    simp [hname]
  · obtain ⟨t, -, rfl⟩ := List.mem_map.mp he
    simp

theorem agree_attributes (h : Fits attributes text children) :
    Value.agreeFields (attributes.map fun a => (a.1, infer (scalarChars a.2))) attributes =
      true := by
  have hstable : ∀ a ∈ attributes, isStable a.2 = true := by
    intro a ha
    obtain ⟨name, -, -, hstable⟩ := h.attributes a ha
    exact hstable
  clear h
  induction attributes with
  | nil => rfl
  | cons a rest ih =>
    rw [List.map_cons, Value.agreeFields, infer_agrees (hstable a List.mem_cons_self),
      ih fun b hb => hstable b (List.mem_cons_of_mem _ hb), beq_self_eq_true]
    rfl

/-- The members of a child entry come together as the value of the entry. -/
theorem siblings_agree (f : Value → Value) {item : Value}
    (hitem : ∀ items, item = .array items → 2 ≤ items.length) :
    ∃ w, siblings ((members item).map f) = some w ∧
      w.agrees item = (members item).all fun m => (f m).agrees m := by
  rcases members_cases item with ⟨items, rfl, hmembers⟩ | ⟨-, hmembers⟩
  · have hlength := hitem items rfl
    rw [hmembers]
    match items, hlength with
    | first :: second :: rest, _ =>
      refine ⟨.array ((first :: second :: rest).map f), rfl, ?_⟩
      rw [Value.agrees, Value.agreeItems_map]
  · rw [hmembers]
    exact ⟨f item, rfl, by simp⟩

theorem agree_children (h : Fits attributes text children) (f : Value → Value) :
    (childEntries f children).length = children.length ∧
      Value.agreeFields (childEntries f children) children =
        (elements children).all fun e => (f e.2).agrees e.2 := by
  have hentries : ∀ c ∈ children,
      roleOf c.1 = .child ∧ ∀ items, c.2 = .array items → 2 ≤ items.length :=
    fun c hc => ⟨h.role_child hc, (h.children c hc).2⟩
  clear h
  induction children with
  | nil => exact ⟨rfl, rfl⟩
  | cons c rest ih =>
    obtain ⟨hrole, hitem⟩ := hentries c List.mem_cons_self
    obtain ⟨hlength, hagree⟩ := ih fun d hd => hentries d (List.mem_cons_of_mem _ hd)
    obtain ⟨w, hw, hagrees⟩ := siblings_agree f hitem
    have hfirst : childEntries f (c :: rest) = (c.1, w) :: childEntries f rest := by
      rw [childEntries, List.flatMap_cons, if_pos hrole, siblingEntries, hw]
      rfl
    rw [hfirst, elements_cons, entryElements, if_pos hrole]
    refine ⟨congrArg (· + 1) hlength, ?_⟩
    rw [Value.agreeFields, hagree, hagrees, beq_self_eq_true, Bool.true_and, List.all_append,
      List.all_map]
    rfl

/-- Every child entry has a member. -/
theorem children_eq_nil (h : Fits attributes text children) (hnone : elements children = []) :
    children = [] := by
  cases children with
  | nil => rfl
  | cons c rest =>
    obtain ⟨w, hw, -⟩ := siblings_agree id (h.children c List.mem_cons_self).2
    rw [elements_cons, entryElements, if_pos (h.role_child List.mem_cons_self),
      List.append_eq_nil_iff, List.map_eq_nil_iff] at hnone
    rw [hnone.1] at hw
    cases hw

variable {pretty : Bool} {depth : Nat}

/-- The text that comes back, unless it is blank and stands beside elements. -/
theorem textBack_eq (h : Fits attributes text children) :
    textBack pretty depth (.object (fieldsOf attributes text children)) =
      if hidesOwnText (.object (fieldsOf attributes text children)) then []
      else text.elim [] scalarChars := by
  rw [textBack, hidesOwnText, entriesOf, h.elements_eq, h.textIn_eq]
  cases helements : elements children with
  | nil =>
    have hchildren := h.children_eq_nil helements
    subst hchildren
    simp [ending, entriesOf, h.hasChildren_eq_false]
  | cons e es => cases text.elim [] scalarChars <;> simp

/-- The entry for the text that comes back. -/
def ownBack (text : Option Value) : Entries Value :=
  text.toList.map fun t => (textKey, infer (scalarChars t))

theorem echo_eq (h : Fits attributes text children) :
    echo pretty depth (.object (fieldsOf attributes text children)) =
      .object (attributes.map (fun a => (a.1, infer (scalarChars a.2))) ++
        (if hidesOwnText (.object (fieldsOf attributes text children)) then [] else ownBack text) ++
        childEntries
          (echo (spread pretty (.object (fieldsOf attributes text children))) (depth + 1))
          children) := by
  have hsome (f : Value → Value) : ((attributes.map fun a => (a.1, infer (scalarChars a.2))).isEmpty
      && (childEntries f children).isEmpty) = false := by
    have hlength := (h.agree_children f).1
    rw [Bool.and_eq_false_iff, List.isEmpty_map, List.isEmpty_eq_false_iff,
      List.isEmpty_eq_false_iff]
    refine h.has_more.imp_right fun hchildren hnone => hchildren ?_
    rw [hnone] at hlength
    exact List.eq_nil_of_length_eq_zero hlength.symm
  have hkeys : (Entries.keys (entriesOf (.object (fieldsOf attributes text children)))).Nodup :=
    h.keys_nodup
  rw [echo_eq_elementValue hkeys, h.textBack_eq, entriesOf, h.attributesIn_eq,
    h.childEntries_eq, elementValue, hsome, if_neg Bool.false_ne_true]
  cases hidesOwnText (.object (fieldsOf attributes text children)) with
  | true => rfl
  | false =>
    cases text with
    | none => rfl
    | some t => simp [ownBack, (h.text t rfl).2]

theorem agree_ownBack (h : Fits attributes text children) :
    Value.agreeFields (ownBack text) (text.toList.map (textKey, ·)) = true := by
  cases text with
  | none => rfl
  | some t =>
    simp [ownBack, Value.agreeFields, infer_agrees (h.text t rfl).1]

/-- The entries come back as they are if the text does and the children do. -/
theorem agrees_iff (h : Fits attributes text children) :
    (echo pretty depth (.object (fieldsOf attributes text children))).agrees
        (.object (fieldsOf attributes text children)) =
      (!hidesOwnText (.object (fieldsOf attributes text children)) &&
        (elements children).all fun e =>
          (echo (spread pretty (.object (fieldsOf attributes text children))) (depth + 1)
            e.2).agrees e.2) := by
  generalize hinner : spread pretty (.object (fieldsOf attributes text children)) = inner
  obtain ⟨hlength, hagree⟩ := h.agree_children (echo inner (depth + 1))
  have htextIn : textIn (entriesOf (.object (fieldsOf attributes text children))) =
      text.elim [] scalarChars := h.textIn_eq
  rw [h.echo_eq, hinner, Value.agrees, ← hagree]
  cases hhides : hidesOwnText (.object (fieldsOf attributes text children)) with
  | true =>
    -- The text that is lost is an entry that is missing.
    have hmissing : text.isSome = true := by
      cases text with
      | none => simp [hidesOwnText, htextIn] at hhides
      | some t => rfl
    rw [if_pos rfl, Bool.not_true, Bool.false_and, ← Bool.not_eq_true]
    intro h
    have hsame := Value.agreeFields_length h
    obtain ⟨t, rfl⟩ := Option.isSome_iff_exists.mp hmissing
    simp only [List.append_nil, List.length_append, List.length_map, hlength, fieldsOf,
      Option.toList_some, List.length_singleton] at hsame
    omega
  | false =>
    have hown : (attributes.map (fun a => (a.1, infer (scalarChars a.2))) ++ ownBack text).length =
        (attributes ++ text.toList.map (textKey, ·)).length := by
      simp [ownBack]
    rw [if_neg Bool.false_ne_true, fieldsOf, Value.agreeFields_append hown,
      Value.agreeFields_append (List.length_map _), h.agree_attributes, h.agree_ownBack]
    rfl

end Fits

section Agreement

variable {pretty : Bool} {depth : Nat} {v : Value}

theorem hidesText_of_isScalar (h : v.isScalar = true) : hidesText v = false := by
  rw [hidesText_eq, hidesOwnText, entriesOf_of_isScalar h, elements_text]
  rfl

theorem echo_of_isScalar (h : v.isScalar = true) :
    echo pretty depth v = if (scalarChars v).isEmpty then .null else infer (scalarChars v) := by
  have hkeys : (Entries.keys (entriesOf v)).Nodup := by simp [entriesOf_of_isScalar h, Entries.keys]
  rw [echo_eq_elementValue hkeys, textBack, ending, entriesOf_of_isScalar h]
  simp [entryElements, attributesIn, entryAttributes, readEntries, textIn, entryText, hasChildren,
    childEntries, elementValue]

/-- A value that XML represents comes back as it is, unless it has blank text beside elements. -/
theorem echo_agrees (h : Content v) : (echo pretty depth v).agrees v = !hidesText v := by
  induction h generalizing pretty depth with
  | null =>
    rw [echo_of_isScalar rfl, hidesText_of_isScalar rfl]
    rfl
  | @scalar v hv htext =>
    have hscalar := isScalar_of_isStable hv
    rw [echo_of_isScalar hscalar, hidesText_of_isScalar hscalar, if_neg (by simpa using htext),
      infer_agrees hv]
    rfl
  | @object attributes children text hfits hmembers ih =>
    rw [hfits.agrees_iff, hidesText_eq, entriesOf, hfits.elements_eq, Bool.not_or,
      List.not_any_eq_all_not]
    congr 1
    rw [Bool.eq_iff_iff, List.all_eq_true, List.all_eq_true]
    refine forall₂_congr fun e he => ?_
    obtain ⟨item, hmem, -, hm⟩ := mem_elements_iff.mp he
    rw [ih _ hmem _ hm]

end Agreement

section Writing

variable {v : Value}

theorem Content.items? (h : Content v) : v.items? = none := by
  cases h with
  | null => rfl
  | scalar hv _ => exact items?_of_isScalar (isScalar_of_isStable hv)
  | object _ _ => rfl

theorem distinct_of_members {item : Value} (h : ∀ m ∈ members item, m.Distinct) :
    item.Distinct := by
  rcases members_cases item with ⟨items, rfl, hmembers⟩ | ⟨-, hmembers⟩
  · exact .array (hmembers ▸ h)
  · exact h item (by simp [hmembers])

theorem Content.distinct (h : Content v) : v.Distinct := by
  induction h with
  | null => exact .scalar rfl
  | scalar hv _ => exact .scalar (isScalar_of_isStable hv)
  | @object attributes children text hfits _ ih =>
    refine .object hfits.keys_nodup fun e he => ?_
    rw [fieldsOf, List.mem_append, List.mem_append] at he
    rcases he with (he | he) | he
    · obtain ⟨-, -, -, hstable⟩ := hfits.attributes e he
      exact .scalar (isScalar_of_isStable hstable)
    · obtain ⟨t, ht, rfl⟩ := List.mem_map.mp he
      exact .scalar (isScalar_of_isStable (hfits.text t (Option.mem_toList.mp ht)).1)
    · exact distinct_of_members (ih e he)

theorem written_of_isScalar (h : v.isScalar = true) : Written v := by
  rw [written_iff, entriesOf_of_isScalar h, elements_text]
  refine ⟨items?_of_isScalar h, ?_, nofun⟩
  intro e he
  rw [List.mem_singleton.mp he, FitsHead, roleOf_textKey]
  exact h

theorem Fits.fitsHead {attributes children : List (String × Value)} {text : Option Value}
    (h : Fits attributes text children) {e : String × Value}
    (he : e ∈ fieldsOf attributes text children) : FitsHead e := by
  rw [fieldsOf, List.mem_append, List.mem_append] at he
  rw [FitsHead]
  rcases he with (he | he) | he
  · obtain ⟨name, hkey, hname, hstable⟩ := h.attributes e he
    rw [hkey, roleOf_attributeKey]
    exact ⟨hname, isScalar_of_isStable hstable⟩
  · obtain ⟨t, ht, rfl⟩ := List.mem_map.mp he
    rw [roleOf_textKey]
    exact isScalar_of_isStable (h.text t (Option.mem_toList.mp ht)).1
  · rw [h.role_child he]
    trivial

/-- A value that XML represents can be written. -/
theorem Content.written (h : Content v) : Written v := by
  induction h with
  | null => exact written_of_isScalar rfl
  | scalar hv _ => exact written_of_isScalar (isScalar_of_isStable hv)
  | object hfits _ ih =>
    rw [written_iff, entriesOf, hfits.elements_eq]
    refine ⟨rfl, fun e he => hfits.fitsHead he, fun e he => ?_⟩
    obtain ⟨item, hmem, -, hm⟩ := mem_elements_iff.mp he
    exact ⟨(hfits.children _ hmem).1, ih _ hmem _ hm⟩

end Writing

end Xml

end Remap
