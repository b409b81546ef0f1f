import Remap.Proofs.Xml.RoundTrip

/-!
# What is read can be written

However text, CDATA sections and elements are mixed in a document, what is read from it is content
of elements, and start tags nest no deeper in what is written of it than in the document. This is
kept up at each piece of the document for the elements that are open. So whatever is read can be
written, and comes back as it is unless blank text stands beside elements, which a CDATA section
can put there.
-/

namespace Remap

namespace Xml

section Names

/-- The names of an element and its attributes in its tag. -/
def tagNames (tag : List Char) : List (List Char) :=
  (splitName tag).1 :: ((attributesOf tag).toOption.getD []).map (·.key)

/-- The names that a piece of a document gives to an element and its attributes. -/
def Token.names : Token → List (List Char)
  | .start tag | .empty tag => tagNames tag
  | _ => []

/-- The names in what is left of a document. -/
def namesFrom : Nat → List Char → List (List Char)
  | 0, _ => []
  | _, [] => []
  | fuel + 1, text =>
    match nextToken text with
    | .error _ => []
    | .ok (token, rest) => token.names ++ namesFrom fuel rest

/-- The names of the elements and attributes of a document. -/
def namesIn (text : String) : List (List Char) :=
  let body := skipMark text.toList
  namesFrom (body.length + 1) body

end Names

variable {limit height : Nat} {name : String} {v : Value}

/-- Whether the text of each number in a value is read as that number. -/
abbrev NumbersReadBack (v : Value) : Prop := ∀ n ∈ v.numbers, Decimal.readsBack n = true

/-- Whether a value is content of elements inside of `height` others, whose start tags nest at most
`limit` deep, if its numbers are read back. -/
def Sound (limit height : Nat) (v : Value) : Prop :=
  NumbersReadBack v → Content v ∧ height + tagDepth v ≤ limit

/-- Whether a name and a value are those of such an element. -/
structure SoundElement (limit height : Nat) (name : String) (v : Value) : Prop where
  name : isName name.toList = true
  single : v.items? = none
  sound : Sound limit height v

section Scalars

variable {text : List Char}

theorem isStable_infer (h : NumbersReadBack (infer text)) : isStable (infer text) = true := by
  revert h
  simp only [infer]
  split
  · exact fun _ => rfl
  · exact fun _ => rfl
  · next htrue hfalse =>
    split
    · exact fun h => h _ (List.mem_singleton_self _)
    · next hnumber =>
      intro _
      simpa [isStable, hnumber] using ⟨htrue, hfalse⟩

theorem canonicalText_ne_empty {n : Float} (h : Decimal.readsBack n = true) :
    Decimal.canonicalText n ≠ "" := by
  intro hempty
  rw [Decimal.readsBack, hempty] at h
  cases h

theorem scalarChars_infer_ne_nil (htext : text ≠ []) (h : isStable (infer text) = true) :
    scalarChars (infer text) ≠ [] := by
  revert h
  simp only [infer]
  split
  · exact fun _ => by decide
  · exact fun _ => by decide
  · split
    · intro h
      simpa [scalarChars, Value.scalarText?] using canonicalText_ne_empty h
    · intro _
      simpa [scalarChars, Value.scalarText?] using htext

end Scalars

/-- Whether the name and the attributes of an element are what a tag makes of names and texts. -/
structure Frame.Tagged (frame : Frame) : Prop where
  name : isName frame.name.toList = true
  attributes : ∀ a ∈ frame.attributes, ∃ name text, a = (attributeKey name, infer text) ∧
    isName name = true
  attributes_nodup : (Entries.keys frame.attributes).Nodup

/-- Whether the elements that an open element holds so far are such elements, gathered under
their names. -/
structure Frame.SoundInside (limit height : Nat) (frame : Frame) : Prop where
  tagged : frame.Tagged
  children : ∀ c ∈ frame.children, (∀ items, c.2 = .array items → 2 ≤ items.length) ∧
    ∀ m ∈ members c.2, SoundElement limit height c.1 m
  children_nodup : (Entries.keys frame.children).Nodup

section Closing

variable {frame : Frame}

theorem exists_mem_members {item : Value} (h : ∀ items, item = .array items → 2 ≤ items.length) :
    ∃ m, m ∈ members item := by
  rcases members_cases item with ⟨items, rfl, hmembers⟩ | ⟨-, hmembers⟩
  · rw [hmembers]
    exact List.exists_mem_of_length_pos (Nat.lt_of_lt_of_le Nat.zero_lt_two (h items rfl))
  · exact ⟨item, by simp [hmembers]⟩

theorem Frame.SoundInside.isName_child (h : frame.SoundInside limit height) {c : String × Value}
    (hc : c ∈ frame.children) : isName c.1.toList = true := by
  obtain ⟨hlength, hmembers⟩ := h.children c hc
  obtain ⟨m, hm⟩ := exists_mem_members hlength
  exact (hmembers m hm).name

theorem Frame.SoundInside.sorted (h : frame.SoundInside limit height) : frame.Sorted where
  attributes := by
    intro key hkey
    obtain ⟨a, ha, rfl⟩ := List.mem_map.mp hkey
    obtain ⟨name, text, rfl, -⟩ := h.tagged.attributes a ha
    exact ⟨name, roleOf_attributeKey⟩
  children := by
    intro key hkey
    obtain ⟨c, hc, rfl⟩ := List.mem_map.mp hkey
    exact roleOf_of_isName (h.isName_child hc)
  attributes_nodup := h.tagged.attributes_nodup
  children_nodup := h.children_nodup

/-- The text of an element as an entry beside its attributes and children. -/
def Frame.own (frame : Frame) : Option Value :=
  if frame.content.isEmpty then none else some (infer frame.content)

theorem Frame.own_eq_some_iff {t : Value} :
    frame.own = some t ↔ frame.content ≠ [] ∧ infer frame.content = t := by
  unfold own
  cases frame.content <;> simp

theorem Frame.Sorted.value_eq_object (h : frame.Sorted)
    (hmore : frame.attributes ≠ [] ∨ frame.children ≠ []) :
    frame.value = .object (fieldsOf frame.attributes frame.own frame.children) := by
  have hsome : (frame.attributes.isEmpty && frame.children.isEmpty) = false := by
    rwa [Bool.and_eq_false_iff, List.isEmpty_eq_false_iff, List.isEmpty_eq_false_iff]
  rw [h.value_eq, elementValue, hsome, if_neg Bool.false_ne_true, fieldsOf, own]
  cases frame.content.isEmpty <;> rfl

theorem mem_numbers_members {item m : Value} (hm : m ∈ members item) {n : Float}
    (hn : n ∈ m.numbers) : n ∈ item.numbers := by
  rcases members_cases item with ⟨items, rfl, hmembers⟩ | ⟨-, hmembers⟩
  · exact Value.mem_numbers_array (hmembers ▸ hm) hn
  · rw [hmembers, List.mem_singleton] at hm
    rwa [hm] at hn

/-- The attributes, text and children of an element fit together. -/
theorem Frame.SoundInside.fits (h : frame.SoundInside limit height)
    (hmore : frame.attributes ≠ [] ∨ frame.children ≠ [])
    (hnumbers : NumbersReadBack frame.value) :
    Fits frame.attributes frame.own frame.children := by
  rw [h.sorted.value_eq_object hmore] at hnumbers
  have hentry : ∀ e ∈ fieldsOf frame.attributes frame.own frame.children, NumbersReadBack e.2 :=
    fun e he n hn => hnumbers n (Value.mem_numbers_object he hn)
  constructor
  · refine h.sorted.keys_nodup (frame.own.toList.map (textKey, ·)) ?_ ?_
    · intro key hkey
      obtain ⟨e, he, rfl⟩ := List.mem_map.mp hkey
      obtain ⟨t, -, rfl⟩ := List.mem_map.mp he
      exact roleOf_textKey
    · cases frame.own <;> simp [Entries.keys]
  · exact hmore
  · intro a ha
    have hstable := hentry a (List.mem_append_left _ (List.mem_append_left _ ha))
    obtain ⟨name, text, rfl, hname⟩ := h.tagged.attributes a ha
    exact ⟨name, rfl, hname, isStable_infer hstable⟩
  · intro t ht
    have hstable := hentry (textKey, t) (by simp [fieldsOf, Option.mem_def.mp ht])
    obtain ⟨hcontent, rfl⟩ := own_eq_some_iff.mp ht
    exact ⟨isStable_infer hstable, scalarChars_infer_ne_nil hcontent (isStable_infer hstable)⟩
  · intro c hc
    exact ⟨h.isName_child hc, (h.children c hc).1⟩

theorem Frame.value_of_bare (hattributes : frame.attributes = [])
    (hchildren : frame.children = []) :
    frame.value = if frame.content.isEmpty then .null else infer frame.content := by
  simp [Frame.value, hattributes, hchildren]

/-- What an element holds is content too, for its numbers are among those of the element. -/
theorem Frame.SoundInside.sound_member (h : frame.SoundInside limit height)
    (hnumbers : NumbersReadBack frame.value) :
    ∀ c ∈ frame.children, ∀ m ∈ members c.2, Content m ∧ height + tagDepth m ≤ limit := by
  intro c hc m hm
  refine ((h.children c hc).2 m hm).sound fun n hn => hnumbers n ?_
  rw [h.sorted.value_eq_object (.inr (List.ne_nil_of_mem hc))]
  exact Value.mem_numbers_object (List.mem_append_right _ hc) (mem_numbers_members hm hn)

theorem Frame.SoundInside.content (h : frame.SoundInside limit height)
    (hnumbers : NumbersReadBack frame.value) : Content frame.value := by
  by_cases hbare : frame.attributes = [] ∧ frame.children = []
  · rw [value_of_bare hbare.1 hbare.2] at hnumbers ⊢
    cases hcontent : frame.content with
    | nil => exact .null
    | cons c text =>
      rw [hcontent] at hnumbers
      have hstable := isStable_infer hnumbers
      exact .scalar hstable (scalarChars_infer_ne_nil (List.cons_ne_nil _ _) hstable)
  · have hmore := not_and_or.mp hbare
    have hfits := h.fits hmore hnumbers
    have hmembers := h.sound_member hnumbers
    rw [h.sorted.value_eq_object hmore]
    exact .object hfits fun c hc m hm => (hmembers c hc m hm).1

theorem Frame.isScalar_value_of_bare (hattributes : frame.attributes = [])
    (hchildren : frame.children = []) : frame.value.isScalar = true := by
  rw [value_of_bare hattributes hchildren]
  split
  · rfl
  · exact infer_isScalar _

/-- The elements that an element is written with are those that it holds. -/
theorem Frame.SoundInside.mem_elements_value (h : frame.SoundInside limit height)
    (hnumbers : NumbersReadBack frame.value) {e : String × Value}
    (he : e ∈ elements (entriesOf frame.value)) :
    ∃ c ∈ frame.children, e.2 ∈ members c.2 := by
  by_cases hbare : frame.attributes = [] ∧ frame.children = []
  · have hscalar := isScalar_value_of_bare hbare.1 hbare.2
    rw [entriesOf_of_isScalar hscalar, elements_text] at he
    nomatch he
  · have hmore := not_and_or.mp hbare
    have hfits := h.fits hmore hnumbers
    rw [h.sorted.value_eq_object hmore, entriesOf, hfits.elements_eq] at he
    obtain ⟨item, hmem, -, hm⟩ := mem_elements_iff.mp he
    exact ⟨_, hmem, hm⟩

/-- An element that is complete is sound, one level further out. -/
theorem Frame.SoundInside.closed (h : frame.SoundInside limit (height + 1))
    (hdepth : height < limit) : SoundElement limit height frame.name frame.value where
  name := h.tagged.name
  single := value_items?
  sound := by
    intro hnumbers
    refine ⟨h.content hnumbers, ?_⟩
    have hinside : ∀ e ∈ elements (entriesOf frame.value),
        tagDepth e.2 ≤ limit - (height + 1) := by
      intro e he
      obtain ⟨c, hc, hm⟩ := h.mem_elements_value hnumbers he
      have hmember := (h.sound_member hnumbers c hc _ hm).2
      omega
    have hvalue := tagDepth_le hinside
    omega

theorem Frame.SoundInside.tagDepth_of_empty (h : frame.SoundInside limit height)
    (hchildren : frame.children = []) (htext : frame.text = [])
    (hnumbers : NumbersReadBack frame.value) : tagDepth frame.value = 0 := by
  have hcontent : frame.content = [] := by simp [Frame.content, htext]
  have hown : frame.own = none := by simp [own, hcontent]
  rw [tagDepth_eq]
  by_cases hattributes : frame.attributes = []
  · rw [value_of_bare hattributes hchildren, hcontent]
    rfl
  · have hfits := h.fits (.inl hattributes) hnumbers
    rw [h.sorted.value_eq_object (.inl hattributes), entriesOf, hfits.textIn_eq, hown, hchildren]
    rw [hown, hchildren] at hfits
    rw [hfits.hasChildren_eq_false]
    rfl

theorem Frame.SoundInside.closed_empty (h : frame.SoundInside limit height)
    (hchildren : frame.children = []) (htext : frame.text = []) (hdepth : height ≤ limit) :
    SoundElement limit height frame.name frame.value where
  name := h.tagged.name
  single := value_items?
  sound := fun hnumbers =>
    ⟨h.content hnumbers, by rwa [h.tagDepth_of_empty hchildren htext hnumbers]⟩

end Closing

section Opening

variable {tag : List Char} {frame : Frame}

/-- A tag opens an element that holds nothing yet. -/
theorem ofTag_tagged (hnames : ∀ name ∈ tagNames tag, isName name = true)
    (h : Frame.ofTag tag = .ok frame) :
    frame.Tagged ∧ frame.children = [] ∧ frame.text = [] := by
  obtain ⟨attributes, hattributes, heq⟩ := bind_eq_ok_iff.mp h
  cases heq
  refine ⟨⟨?_, ?_, Entries.keys_foldl_put_nodup List.nodup_nil⟩, rfl, rfl⟩
  · simpa using hnames _ List.mem_cons_self
  · intro e he
    obtain ⟨a, ha, rfl⟩ := (Entries.mem_foldl_put he).resolve_left List.not_mem_nil
    refine ⟨a.key, a.value, rfl, hnames _ (List.mem_cons_of_mem _ ?_)⟩
    rw [hattributes]
    exact List.mem_map_of_mem ha

theorem Frame.Tagged.soundInside (h : frame.Tagged) (hchildren : frame.children = []) :
    frame.SoundInside limit height where
  tagged := h
  children := by
    rw [hchildren]
    nofun
  children_nodup := by
    rw [hchildren]
    exact List.nodup_nil

end Opening

section Adding

variable {frame : Frame}

theorem Frame.SoundInside.addText (h : frame.SoundInside limit height) (run : TextRun) :
    (frame.addText run).SoundInside limit height :=
  ⟨⟨h.tagged.name, h.tagged.attributes, h.tagged.attributes_nodup⟩, h.children, h.children_nodup⟩

/-- A child joins the siblings of its name. -/
theorem Frame.SoundInside.addChild (h : frame.SoundInside limit height)
    (hv : SoundElement limit height name v) :
    (frame.addChild name v).SoundInside limit height := by
  rw [addChild_eq]
  refine ⟨⟨h.tagged.name, h.tagged.attributes, h.tagged.attributes_nodup⟩, ?_,
    Entries.keys_put_nodup _ h.children_nodup⟩
  intro c hc
  rcases Entries.mem_put hc with rfl | hc
  · dsimp only
    split
    · next items hitems =>
      obtain ⟨hlength, hmembers⟩ := h.children _ (Entries.mem_of_get? hitems)
      have hlength := hlength items rfl
      constructor
      · rintro _ ⟨⟩
        rw [List.length_append]
        omega
      · intro m hm
        rcases List.mem_append.mp hm with hm | hm
        · exact hmembers m hm
        · rwa [List.mem_singleton.mp hm]
    · next first hnone hfirst =>
      obtain ⟨-, hmembers⟩ := h.children _ (Entries.mem_of_get? hfirst)
      have hsingle : members first = [first] := by
        rcases members_cases first with ⟨items, rfl, -⟩ | ⟨-, hsingle⟩
        · exact (hnone items rfl).elim
        · exact hsingle
      constructor
      · rintro _ ⟨⟩
        exact Nat.le_refl 2
      · intro m hm
        rcases List.mem_pair.mp hm with rfl | rfl
        · exact hmembers m (by simp [hsingle])
        · exact hv
    · constructor
      · rintro items rfl
        cases hv.single
      · intro m hm
        rcases members_cases v with ⟨items, rfl, -⟩ | ⟨-, hsingle⟩
        · cases hv.single
        · rw [hsingle, List.mem_singleton] at hm
          rwa [hm]
  · exact h.children c hc

end Adding

section Progress

/-- Whether the open elements are sound, innermost first. -/
inductive SoundStack (limit : Nat) : List Frame → Prop
  | nil : SoundStack limit []
  | cons {frame : Frame} {outer : List Frame}
      (hframe : frame.SoundInside limit (outer.length + 1)) (hdepth : outer.length < limit)
      (houter : SoundStack limit outer) : SoundStack limit (frame :: outer)

theorem SoundStack.length_le {stack : List Frame} (h : SoundStack limit stack) :
    stack.length ≤ limit := by
  cases h with
  | nil => exact Nat.zero_le _
  | cons _ hdepth _ => exact hdepth

/-- Whether the open elements and the document element, if it is complete, are sound. -/
structure Progress.Sound (limit : Nat) (p : Progress) : Prop where
  stack : SoundStack limit p.stack
  document : ∀ e ∈ p.document, SoundElement limit 0 e.1 e.2

variable {p q : Progress} {token : Token}

/-- A sound element inside the open ones keeps them sound. -/
theorem Progress.Sound.add (h : p.Sound limit) (hv : SoundElement limit p.stack.length name v) :
    (p.add name v).Sound limit := by
  obtain ⟨stack, document⟩ := p
  cases h.stack with
  | nil =>
    refine ⟨.nil, ?_⟩
    rintro e ⟨⟩
    exact hv
  | cons hframe hdepth houter => exact ⟨.cons (hframe.addChild hv) hdepth houter, h.document⟩

theorem Progress.Sound.addText (h : p.Sound limit) {run : TextRun} (hq : p.addText run = .ok q) :
    q.Sound limit := by
  obtain ⟨stack, document⟩ := p
  unfold Progress.addText at hq
  split at hq
  · cases hq
    exact h
  · cases h.stack with
    | nil =>
      simp only at hq
      split at hq
      · cases hq
        exact h
      · nomatch hq
    | cons hframe hdepth houter =>
      cases hq
      exact ⟨.cons (hframe.addText run) hdepth houter, h.document⟩

/-- **Each piece of a document keeps the open elements sound.** -/
theorem Progress.Sound.step (h : p.Sound limit) (hnames : ∀ name ∈ token.names, isName name = true)
    (hq : p.step limit token = .ok q) : q.Sound limit := by
  cases token with
  | text raw =>
    obtain ⟨content, -, hq⟩ := bind_eq_ok_iff.mp hq
    exact h.addText hq
  | cdata content => exact h.addText hq
  | aside =>
    cases hq
    exact h
  | start tag =>
    simp only [Progress.step] at hq
    split at hq
    · cases hq
    · next hlimit =>
      split at hq
      · cases hq
      · obtain ⟨frame, hframe, hq⟩ := bind_eq_ok_iff.mp hq
        obtain ⟨htagged, hchildren, -⟩ := ofTag_tagged hnames (mapError_eq_ok_iff.mp hframe)
        cases hq
        exact ⟨.cons (htagged.soundInside hchildren) (Nat.not_le.mp hlimit) h.stack, h.document⟩
  | empty tag =>
    obtain ⟨frame, hframe, hq⟩ := bind_eq_ok_iff.mp hq
    obtain ⟨htagged, hchildren, htext⟩ := ofTag_tagged hnames (mapError_eq_ok_iff.mp hframe)
    have hinside : frame.SoundInside limit p.stack.length := htagged.soundInside hchildren
    split at hq
    · cases hq
    · cases hq
      exact h.add (hinside.closed_empty hchildren htext h.stack.length_le)
  | close name =>
    obtain ⟨stack, document⟩ := p
    cases h.stack with
    | nil => cases hq
    | cons hframe hdepth houter =>
      simp only [Progress.step] at hq
      split at hq
      · cases hq
        exact Progress.Sound.add ⟨houter, h.document⟩ (hframe.closed hdepth)
      · cases hq

/-- What is read piece by piece keeps the open elements sound. -/
theorem Progress.Sound.readFrom {size fuel : Nat} {text : List Char} (h : p.Sound limit)
    (hnames : ∀ name ∈ namesFrom fuel text, isName name = true)
    (hq : readFrom limit size fuel p text = .ok q) : q.Sound limit := by
  induction fuel generalizing p text with
  | zero =>
    cases hq
    exact h
  | succ fuel ih =>
    cases text with
    | nil =>
      cases hq
      exact h
    | cons c text =>
      cases htoken : nextToken (c :: text) with
      | error fault => simp [Xml.readFrom, htoken, fail] at hq
      | ok piece =>
        obtain ⟨token, rest⟩ := piece
        simp only [namesFrom, htoken] at hnames
        cases hstep : p.step limit token with
        | error fault => simp [Xml.readFrom, htoken, hstep, fail] at hq
        | ok next =>
          simp only [Xml.readFrom, htoken, hstep] at hq
          have hnext := h.step (fun name hname => hnames name (List.mem_append_left _ hname)) hstep
          exact ih hnext (fun name hname => hnames name (List.mem_append_right _ hname)) hq

/-- A document whose names are names is read as the name of a sound element with its value. -/
theorem read_sound {text : String} (hnames : ∀ name ∈ namesIn text, isName name = true)
    (h : read limit text = .ok v) :
    ∃ name element, v = .object [(name, element)] ∧ SoundElement limit 0 name element := by
  obtain ⟨p, hp, hfinish⟩ := bind_eq_ok_iff.mp h
  have hstart : (⟨[], none⟩ : Progress).Sound limit := ⟨.nil, nofun⟩
  have hsound := hstart.readFrom hnames hp
  obtain ⟨stack, document⟩ := p
  cases stack with
  | cons frame outer => nomatch hfinish
  | nil =>
    cases document with
    | none => nomatch hfinish
    | some element =>
      cases hfinish
      exact ⟨element.1, element.2, rfl, hsound.document element rfl⟩

end Progress

/-- An object that only names the document element hides no text but what that hides. -/
theorem hidesText_document (hname : isName name.toList = true) (hv : v.items? = none) :
    hidesText (.object [(name, v)]) = hidesText v := by
  have hrole : roleOf name = .child := roleOf_of_isName hname
  have hmembers : members v = [v] := by
    rcases members_cases v with ⟨items, rfl, -⟩ | ⟨-, hmembers⟩
    · cases hv
    · exact hmembers
  rw [hidesText_eq, hidesOwnText]
  simp [entriesOf, entryElements, textIn, entryText, hrole, hmembers]

end Xml

namespace Payload

open Xml

variable {v : Value} {text : String} {limits : Limits}

/-- **What is read can be written**, in either layout, and read within the same depth. It comes back
as it is exactly if no blank text stands beside elements. -/
theorem read_write_xml_of_read (hread : read .xml limits text = .ok v)
    (hnames : ∀ name ∈ namesIn text, isName name = true)
    (hnumbers : NumbersReadBack v) (pretty : Bool) :
    ∃ again, write .xml pretty v = .ok again ∧
      ∀ maxBytes, again.utf8ByteSize ≤ maxBytes →
        ∃ w, read .xml ⟨maxBytes, limits.maxDepth⟩ again = .ok w ∧
          w.agrees v = !hidesText v := by
  obtain ⟨name, element, rfl, hsound⟩ := read_sound hnames (read_xml_eq_ok_iff.mp hread).2
  have hinner : NumbersReadBack element := fun n hn =>
    hnumbers n (Value.mem_numbers_object (List.mem_singleton_self (name, element)) hn)
  obtain ⟨hcontent, hdepth⟩ := hsound.sound hinner
  rw [Nat.zero_add] at hdepth
  obtain ⟨again, hwrite, hagain⟩ := read_write_xml_of_content hsound.name hcontent pretty
  refine ⟨again, hwrite, fun maxBytes hsize => ?_⟩
  rw [hidesText_document hsound.name hsound.single]
  exact hagain ⟨maxBytes, limits.maxDepth⟩ hdepth hsize

/-- A document with an attribute, text, a comment, a CDATA section and elements of one name apart
from each other. -/
def priceDocument : String :=
  "<price currency='EUR'> 12 <tax>7</tax><!-- net --><note><![CDATA[<a> ]]></note><tax/></price>"

def price : Value :=
  .object [("price", .object [("@currency", .string "EUR"), ("#text", .string " 12 "),
    ("tax", .array [.number 7, .null]), ("note", .string "<a> ")])]

theorem read_priceDocument : read .xml .standard priceDocument = .ok price := by rfl

theorem read_write_xml_of_read_price : ∃ again w,
    write .xml true price = .ok again ∧ read .xml .standard again = .ok w ∧
      w.agrees price = true := by
  have hnames : ∀ name ∈ namesIn priceDocument, isName name = true := by decide +kernel
  have hnumbers : NumbersReadBack price := by decide +kernel
  obtain ⟨again, hwrite, hagain⟩ :=
    read_write_xml_of_read read_priceDocument hnames hnumbers true
  have hsize : again.utf8ByteSize ≤ Limits.standard.maxBytes := by
    have hshort : ((write .xml true price).toOption.all
        fun text => decide (text.utf8ByteSize ≤ Limits.standard.maxBytes)) = true := by
      decide +kernel
    simpa using of_toOption_all hshort hwrite
  obtain ⟨w, hw, hagrees⟩ := hagain _ hsize
  have hshown : hidesText price = false := by decide +kernel
  exact ⟨again, w, hwrite, hw, hagrees.trans (by rw [hshown, Bool.not_false])⟩

/-- Blank text beside an element is read from a CDATA section, and is lost when it is written
without one. -/
theorem read_write_xml_blank :
    read .xml .standard "<a><![CDATA[ ]]><b/></a>" =
      .ok (.object [("a", .object [("#text", .string " "), ("b", .null)])]) ∧
    write .xml false (.object [("a", .object [("#text", .string " "), ("b", .null)])]) =
      .ok "<?xml version=\"1.0\" encoding=\"UTF-8\"?><a> <b/></a>" ∧
    read .xml .standard "<?xml version=\"1.0\" encoding=\"UTF-8\"?><a> <b/></a>" =
      .ok (.object [("a", .object [("b", .null)])]) ∧
    (Value.object [("a", .object [("b", .null)])]).same
      (.object [("a", .object [("#text", .string " "), ("b", .null)])]) = false :=
  ⟨rfl, rfl, rfl, rfl⟩

end Payload

end Remap
