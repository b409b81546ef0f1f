import Mathlib.Data.List.MinMax
import Mathlib.Order.Nat
import Remap.Proofs.Xml.Frames
import Remap.Proofs.Xml.Writing

/-!
# What comes back of a value that is written and read

Every text that the writer makes can be read, if the reader goes as deep as its start tags are
nested. What is read is given here for all values, whether it is what was written or not.
-/

namespace Remap.Xml

variable {limit : Nat} {pretty : Bool} {depth : Nat} {name : String} {v : Value}
  {p q : Progress} {rest : List Char}

/-- How deeply start tags are nested in what a value is written as. A tag without anything inside
it is no start tag. -/
def tagDepth (v : Value) : Nat :=
  if (textIn (entriesOf v)).isEmpty && !hasChildren (entriesOf v) then 0
  else ((elements (entriesOf v)).attach.map fun ⟨e, _⟩ => tagDepth e.2).foldr max 0 + 1
termination_by sizeOf v
decreasing_by exact sizeOf_lt_of_mem_elements ‹_›

/-- The line break before the end tag of an element, if there is one. -/
def ending (pretty : Bool) (depth : Nat) (v : Value) : List Char :=
  if hasChildren (entriesOf v) then newline (spread pretty v) depth else []

/-- The element that a value is written as when it has been read, up to its end tag, if what is
inside it comes back as given. -/
def frameOf (pretty : Bool) (depth : Nat) (name : String) (v : Value)
    (inside : List (String × Value)) : Frame :=
  Frame.ofParts name (attributesIn (entriesOf v)) (textIn (entriesOf v))
    (newline (spread pretty v) (depth + 1)) inside (ending pretty depth v)

/-- What comes back of a value that is written and read. -/
def echo (pretty : Bool) (depth : Nat) (v : Value) : Value :=
  let inside := (elements (entriesOf v)).attach.map fun ⟨e, _⟩ =>
    (e.1, echo (spread pretty v) (depth + 1) e.2)
  (frameOf pretty depth "" v inside).value
termination_by sizeOf v
decreasing_by exact sizeOf_lt_of_mem_elements ‹_›

/-- What comes back of the elements inside an element. -/
def echoInside (pretty : Bool) (depth : Nat) (v : Value) : List (String × Value) :=
  (elements (entriesOf v)).map fun e => (e.1, echo (spread pretty v) (depth + 1) e.2)

theorem tagDepth_eq : tagDepth v =
    if (textIn (entriesOf v)).isEmpty && !hasChildren (entriesOf v) then 0
    else ((elements (entriesOf v)).map fun e => tagDepth e.2).foldr max 0 + 1 := by
  rw [tagDepth]
  simp only [List.map_subtype, List.unattach_attach]

theorem tagDepth_lt_of_mem {e : String × Value} (he : e ∈ elements (entriesOf v)) :
    tagDepth e.2 < tagDepth v := by
  have hchildren : hasChildren (entriesOf v) = true := by
    rw [← Bool.not_eq_false]
    intro hnone
    rw [elements_of_not_hasChildren hnone] at he
    nomatch he
  have hmax : tagDepth e.2 ≤ ((elements (entriesOf v)).map fun e => tagDepth e.2).foldr max 0 :=
    List.le_max_of_le' 0 (List.mem_map_of_mem he) (Nat.le_refl _)
  have hv := tagDepth_eq (v := v)
  rw [hchildren, Bool.not_true, Bool.and_false, if_neg Bool.false_ne_true] at hv
  omega

/-- Start tags are nested one deeper than inside the elements of a value. -/
theorem tagDepth_le {n : Nat} (h : ∀ e ∈ elements (entriesOf v), tagDepth e.2 ≤ n) :
    tagDepth v ≤ n + 1 := by
  rw [tagDepth_eq]
  split
  · exact Nat.zero_le _
  · have hmax : ((elements (entriesOf v)).map fun e => tagDepth e.2).foldr max 0 ≤ n := by
      refine List.max_le_of_forall_le _ n fun d hd => ?_
      obtain ⟨e, he, rfl⟩ := List.mem_map.mp hd
      exact h e he
    exact Nat.succ_le_succ hmax

theorem value_frameOf (name : String) (inside : List (String × Value)) :
    (frameOf pretty depth name v inside).value = (frameOf pretty depth "" v inside).value := by
  rw [frameOf, frameOf, Frame.ofParts_eq, Frame.ofParts_eq]
  rfl

theorem echo_eq (name : String) :
    echo pretty depth v = (frameOf pretty depth name v (echoInside pretty depth v)).value := by
  rw [echo]
  simp only [List.map_subtype, List.unattach_attach, echoInside]
  exact (value_frameOf name _).symm

theorem mem_newline {c : Char} (hc : c ∈ newline pretty depth) : c = '\n' ∨ c = ' ' := by
  cases pretty with
  | false => nomatch hc
  | true => exact (List.mem_cons.mp hc).imp_right List.eq_of_mem_replicate

theorem escape_newline (pretty : Bool) (depth : Nat) :
    escape (newline pretty depth) = newline pretty depth := by
  have hplain : ∀ c ∈ newline pretty depth, escapeChar c = [c] := by
    intro c hc
    rcases mem_newline hc with rfl | rfl <;> rfl
  rw [escape, List.flatMap_congr hplain, List.flatMap_singleton']

section Value

theorem echo_items? : (echo pretty depth v).items? = none := by
  rw [echo_eq ""]
  exact Frame.value_items?

theorem newline_isBlank : IsBlankText (newline pretty depth) := by
  rw [IsBlankText, List.all_eq_true]
  intro c hc
  rcases mem_newline hc with rfl | rfl <;> decide

/-- The text of an element that comes back. Blank text beside elements does not, and without
elements the line break before the end tag does. -/
def textBack (pretty : Bool) (depth : Nat) (v : Value) : List Char :=
  if (elements (entriesOf v)).isEmpty then textIn (entriesOf v) ++ ending pretty depth v
  else if (textIn (entriesOf v)).all Text.isBlank then [] else textIn (entriesOf v)

/-- What comes back of an element, part by part. -/
theorem echo_eq_elementValue (hkeys : (Entries.keys (entriesOf v)).Nodup) :
    echo pretty depth v =
      elementValue (readEntries (attributesIn (entriesOf v))) (textBack pretty depth v)
        (childEntries (echo (spread pretty v) (depth + 1)) (entriesOf v)) := by
  have hending : IsBlankText (ending pretty depth v) := by
    unfold ending
    split
    · exact newline_isBlank
    · rfl
  have hsorted : (frameOf pretty depth "" v (echoInside pretty depth v)).Sorted :=
    Frame.sorted_elements hkeys _
  have hcontent : (frameOf pretty depth "" v (echoInside pretty depth v)).content =
      textBack pretty depth v := by
    rw [frameOf, Frame.content_ofParts newline_isBlank hending, textBack, echoInside,
      List.isEmpty_map]
  have hgather : gather (echoInside pretty depth v) =
      childEntries (echo (spread pretty v) (depth + 1)) (entriesOf v) :=
    gather_elements (fun _ => echo_items?) hkeys
  rw [echo_eq "", hsorted.value_eq, hcontent, frameOf, Frame.ofParts_eq, hgather]

end Value

section Reading

variable {frame : Frame} {outer : List Frame} {document : Option (String × Value)}

theorem exists_elementText_eq_cons (name : List Char) (attributes : List (List Char × List Char))
    (text : List Char) (inside : Option (List Char)) :
    ∃ tail, elementText name attributes text inside = '<' :: tail := by
  rw [elementText]
  split
  · exact ⟨_, rfl⟩
  · simp only [List.cons_append]
    exact ⟨_, rfl⟩

theorem exists_render_eq_cons (pretty : Bool) (depth : Nat) (name : String) (v : Value) :
    ∃ tail, render pretty depth name v = '<' :: tail := by
  rw [render_eq]
  exact exists_elementText_eq_cons _ _ _ _

/-- Whether the text of an element with the given name and value is read as its echo. -/
def ReadsBack (limit : Nat) (pretty : Bool) (depth : Nat) (name : String) (v : Value) : Prop :=
  ∀ (p q : Progress) (rest : List Char), p.stack.length + tagDepth v ≤ limit →
    (p.stack = [] → p.document = none) →
      Reads limit (p.add name (echo pretty depth v)) rest q →
        Reads limit p (render pretty depth name v ++ rest) q

/-- Elements that stand one after another are read one after another. -/
theorem reads_siblings {es : List (String × Value)}
    (h : ∀ e ∈ es, ReadsBack limit pretty depth e.1 e.2)
    (hdepth : ∀ e ∈ es, outer.length + 1 + tagDepth e.2 ≤ limit)
    (hrest : Reads limit ⟨(es.map fun e => (e.1, echo pretty depth e.2)).foldl
      (fun frame e => (frame.addRun (newline pretty depth)).addChild e.1 e.2) frame :: outer,
        document⟩ rest q) :
    Reads limit ⟨frame :: outer, document⟩
      ((es.map fun e => newline pretty depth ++ render pretty depth e.1 e.2).flatten ++ rest)
        q := by
  induction es generalizing frame with
  | nil => exact hrest
  | cons e es ih =>
    obtain ⟨tail, htail⟩ := exists_render_eq_cons pretty depth e.1 e.2
    have hmarkup : ∃ tail, render pretty depth e.1 e.2 ++
        ((es.map fun e => newline pretty depth ++ render pretty depth e.1 e.2).flatten ++ rest) =
          '<' :: tail := by
      rw [htail]
      exact ⟨_, List.cons_append⟩
    rw [List.map_cons, List.flatten_cons, List.append_assoc, List.append_assoc]
    nth_rewrite 1 [← escape_newline]
    refine reads_text (fun _ => hmarkup) ?_
    have he := hdepth e List.mem_cons_self
    refine h e List.mem_cons_self _ _ _ (by rw [List.length_cons]; omega) nofun ?_
    exact ih (fun e he => h e (List.mem_cons_of_mem _ he))
      (fun e he => hdepth e (List.mem_cons_of_mem _ he)) hrest

theorem exists_siblings_eq_cons (es : List (String × Value)) (depth : Nat) (rest : List Char) :
    ∃ tail, (es.map fun e => newline false depth ++ render false depth e.1 e.2).flatten ++
      '<' :: rest = '<' :: tail := by
  cases es with
  | nil => exact ⟨rest, rfl⟩
  | cons e es =>
    obtain ⟨tail, htail⟩ := exists_render_eq_cons false depth e.1 e.2
    rw [List.map_cons, List.flatten_cons, htail]
    exact ⟨_, rfl⟩

/-- An element without text and without child entries is read from one tag. -/
theorem readsBack_of_empty (hname : isName name.toList = true)
    (hnames : ∀ a ∈ attributesIn (entriesOf v), isName a.1 = true)
    (hdiffer : ((attributesIn (entriesOf v)).map (·.1)).Nodup)
    (htext : textIn (entriesOf v) = []) (hchildren : hasChildren (entriesOf v) = false) :
    ReadsBack limit pretty depth name v := by
  intro p q rest _ hroot h
  have hframe : frameOf pretty depth name v (echoInside pretty depth v) =
      ⟨String.ofList name.toList, readEntries (attributesIn (entriesOf v)), [], []⟩ := by
    simp [frameOf, echoInside, elements_of_not_hasChildren hchildren, ending, hchildren, htext,
      Frame.ofParts, Frame.addRun]
  have hrender : render pretty depth name v ++ rest =
      '<' :: (startTag name.toList (attributesIn (entriesOf v)) ++ '/' :: '>' :: rest) := by
    rw [render_eq]
    simp [elementText, htext, hchildren]
  rw [echo_eq name, hframe] at h
  rw [hrender]
  refine reads_empty hname hnames hdiffer hroot ?_
  rw [Progress.complete_eq]
  simpa using h

/-- An element with text or child entries is read from its start tag to its end tag. -/
theorem readsBack_of_filled (hname : isName name.toList = true)
    (hnames : ∀ a ∈ attributesIn (entriesOf v), isName a.1 = true)
    (hdiffer : ((attributesIn (entriesOf v)).map (·.1)).Nodup)
    (hfilled : textIn (entriesOf v) ≠ [] ∨ hasChildren (entriesOf v) = true)
    (hinside : ∀ e ∈ elements (entriesOf v),
      ReadsBack limit (spread pretty v) (depth + 1) e.1 e.2) :
    ReadsBack limit pretty depth name v := by
  intro p q rest hdepth hroot h
  have hrender : render pretty depth name v ++ rest =
      '<' :: (startTag name.toList (attributesIn (entriesOf v)) ++ '>' ::
        (escape (textIn (entriesOf v)) ++
          (((elements (entriesOf v)).map fun e => newline (spread pretty v) (depth + 1) ++
            render (spread pretty v) (depth + 1) e.1 e.2).flatten ++
              (escape (ending pretty depth v) ++
                '<' :: '/' :: (name.toList ++ '>' :: rest))))) := by
    rw [render_eq]
    rcases Bool.eq_false_or_eq_true (hasChildren (entriesOf v)) with hchildren | hchildren
    · simp [elementText, ending, hchildren, escape_newline]
    · have htext := hfilled.resolve_right (by simp [hchildren])
      simp [elementText, ending, hchildren, elements_of_not_hasChildren hchildren, htext]
  have hdepth' : ∀ e ∈ elements (entriesOf v), p.stack.length + 1 + tagDepth e.2 ≤ limit := by
    intro e he
    have := tagDepth_lt_of_mem he
    omega
  have hstart : p.stack.length < limit := by
    have hv := tagDepth_eq (v := v)
    rw [if_neg (by simpa [or_iff_not_imp_left] using hfilled)] at hv
    omega
  have hclosed : p.add name (echo pretty depth v) = (⟨p.stack, p.document⟩ : Progress).complete
      (frameOf pretty depth (String.ofList name.toList) v (echoInside pretty depth v)) := by
    rw [Progress.complete_eq, echo_eq (String.ofList name.toList), frameOf, Frame.ofParts_eq,
      String.ofList_toList]
  rw [hclosed] at h
  rw [hrender]
  refine reads_start hname hnames hdiffer hstart hroot ?_
  refine reads_text ?_ ?_
  · intro htext
    have hspread : spread pretty v = false := by simp [spread, htext]
    have hending : ending pretty depth v = [] := by simp [ending, hspread, newline]
    rw [hspread, hending]
    exact exists_siblings_eq_cons _ _ _
  · refine reads_siblings hinside hdepth' (reads_text (fun _ => ⟨_, rfl⟩) ?_)
    refine reads_end hname ?_ h
    rw [Frame.addRun_eq, Frame.foldl_addChild, Frame.addRun_eq]

/-- Whatever the writer makes of a value is read as the echo of the value. -/
theorem readsBack (hname : isName name.toList = true) (hv : Written v) (hdistinct : v.Distinct) :
    ReadsBack limit pretty depth name v := by
  induction v using elements_induction generalizing pretty depth name with
  | step v ih =>
    obtain ⟨-, hfits, hinner⟩ := written_iff.mp hv
    have hnames : ∀ a ∈ attributesIn (entriesOf v), isName a.1 = true := by
      intro a ha
      obtain ⟨e, he, hrole, -⟩ := mem_attributesIn_iff.mp ha
      have hfits := hfits e he
      rw [FitsHead, hrole] at hfits
      exact hfits.1
    have hdiffer := attributesIn_names_nodup (entriesOf_keys_nodup hdistinct)
    by_cases hempty : textIn (entriesOf v) = [] ∧ hasChildren (entriesOf v) = false
    · exact readsBack_of_empty hname hnames hdiffer hempty.1 hempty.2
    · have hfilled : textIn (entriesOf v) ≠ [] ∨ hasChildren (entriesOf v) = true := by
        rwa [not_and_or, Bool.not_eq_false] at hempty
      exact readsBack_of_filled hname hnames hdiffer hfilled fun e he =>
        ih e he (hinner e he).1 (hinner e he).2 (elements_distinct hdistinct he)

end Reading

section Document

/-- The text of a document whose element is written as given. -/
def documentText (pretty : Bool) (element : List Char) : String :=
  let break_ := if pretty then ['\n'] else []
  String.ofList (declaration ++ break_ ++ element ++ break_)

theorem isName_documentElement (v : Value) : isName (documentElement v).1.toList = true := by
  have hroot : isName "root".toList = true := by decide
  unfold documentElement
  split
  · exact hroot
  · split
    · assumption
    · exact hroot
  · exact hroot
  · exact hroot

theorem documentElement_distinct (h : v.Distinct) : (documentElement v).2.Distinct := by
  unfold documentElement
  split
  · exact h
  · split
    · exact h.of_mem_fields List.mem_cons_self
    · exact h
  · exact .object (by simp [Entries.keys]) (by simpa using h)
  · exact h

/-- A value can be written in either layout if the content of its document element has an XML
form. -/
theorem write_eq_ok_iff (pretty : Bool) (h : v.Distinct) {text : String} :
    write pretty v = .ok text ↔
      Written (documentElement v).2 ∧
        text =
          documentText pretty (render pretty 0 (documentElement v).1 (documentElement v).2) := by
  rw [write, bind_eq_ok_iff]
  simp only [writeElement_eq_ok_iff (documentElement_distinct h), isName_documentElement, true_and]
  constructor
  · rintro ⟨element, ⟨hv, rfl⟩, heq⟩
    exact ⟨hv, (Except.ok.inj heq).symm⟩
  · rintro ⟨hv, rfl⟩
    exact ⟨_, ⟨hv, rfl⟩, rfl⟩

/-- **Whatever is written can be read**, and what is read is the echo of what was written. -/
theorem read_write (limit : Nat) (h : v.Distinct) {text : String}
    (hwrite : write pretty v = .ok text) (hdepth : tagDepth (documentElement v).2 ≤ limit) :
    read limit text =
      .ok (.object [((documentElement v).1, echo pretty 0 (documentElement v).2)]) := by
  obtain ⟨hv, rfl⟩ := (write_eq_ok_iff pretty h).mp hwrite
  have hback : ReadsBack limit pretty 0 (documentElement v).1 (documentElement v).2 :=
    readsBack (isName_documentElement v) hv (documentElement_distinct h)
  refine read_of_reads rfl ?_
  rw [List.append_assoc, List.append_assoc]
  refine reads_declaration ?_
  cases pretty with
  | false => exact hback _ _ _ (by simpa using hdepth) (fun _ => rfl) .nil
  | true =>
    obtain ⟨tail, htail⟩ := exists_render_eq_cons true 0 (documentElement v).1 (documentElement v).2
    refine reads_outside (fun _ => ⟨tail ++ ['\n'], by rw [htail]; rfl⟩) ?_
    exact hback _ _ _ (by simpa using hdepth) (fun _ => rfl) (reads_outside (absurd rfl) .nil)

end Document

end Remap.Xml
