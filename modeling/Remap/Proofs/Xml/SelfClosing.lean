import Remap.Proofs.Xml.Pieces
import Remap.Proofs.Xml.RoundTrip

/-!
# Self-closing elements

An element without content may be written with one tag or with two. Both are read as the same
element wherever they stand. Only a start tag counts against the nesting limit, so the one tag is
read as well where the elements around it are all that may be open.
-/

namespace Remap

namespace Xml

/-- An element without content as one tag. -/
def emptyElement (tag : List Char) : List Char := '<' :: (tag ++ ['/', '>'])

/-- The element as a start tag and an end tag. -/
def openElement (tag : List Char) : List Char :=
  '<' :: (tag ++ '>' :: '<' :: '/' :: ((splitName tag).1 ++ ['>']))

/-- A document in which an element stands. -/
def document (before element after : List Char) : String :=
  String.ofList (before ++ (element ++ after))

/-- Whether an element can be written in both ways: the one tag is self-closing, and of the two the
first opens the element that the second closes. -/
structure Spelled (tag : List Char) : Prop where
  short : Cuts (emptyElement tag) [.empty tag] []
  long : Cuts (openElement tag) [.start tag, .close (splitName tag).1] []

/-- How many elements are open behind a piece, if `height` are open before it. -/
def Token.height (height : Nat) : Token → Nat
  | .start _ => height + 1
  | .close _ => height - 1
  | .empty _ | .text _ | .cdata _ | .aside => height

/-- How many elements are open behind some pieces. -/
def openAfter (tokens : List Token) : Nat := tokens.foldl Token.height 0

section Spelled

variable {tag after : List Char} {name : List Char} {attributes : List (List Char × List Char)}

theorem Spelled.cuts_short (h : Spelled tag) (after : List Char) :
    Cuts (emptyElement tag ++ after) [.empty tag] after :=
  h.short.behind (by simp) after

theorem Spelled.cuts_long (h : Spelled tag) (after : List Char) :
    Cuts (openElement tag ++ after) [.start tag, .close (splitName tag).1] after :=
  h.long.behind (by simp) after

/-- An element with names of XML can be written in both ways. -/
theorem spelled_startTag (hname : isName name) (hnames : ∀ a ∈ attributes, isName a.1) :
    Spelled (startTag name attributes) := by
  have hclosed := closed_startTag hname hnames
  constructor
  · have hslash : Closed (startTag name attributes ++ ['/']) := hclosed.append (.of_plain (by simp))
    have htoken :=
      nextToken_tag [] hname (name_prefix_startTag.trans (List.prefix_append _ _)) hslash
    rw [tagToken_slash, List.append_assoc] at htoken
    exact .cons (List.cons_ne_nil _ _) htoken .nil
  · have htoken := nextToken_tag ('<' :: '/' :: (name ++ ['>'])) hname name_prefix_startTag hclosed
    rw [tagToken_startTag hname] at htoken
    have hopen : openElement (startTag name attributes) =
        '<' :: (startTag name attributes ++ '>' :: '<' :: '/' :: (name ++ ['>'])) := by
      rw [openElement, splitName_startTag hname]
    rw [hopen, splitName_startTag hname]
    exact .cons (List.cons_ne_nil _ _) htoken
      (.cons (List.cons_ne_nil _ _) (nextToken_endTag hname) .nil)

end Spelled

section Steps

variable {limit : Nat} {p q : Progress} {tag : List Char} {tokens : List Token}

theorem Progress.complete_height (frame : Frame) :
    (p.complete frame).stack.length = p.stack.length := by
  unfold Progress.complete
  split
  · next h => rw [h]; rfl
  · rfl

theorem Progress.addText_height {run : TextRun} (h : p.addText run = .ok q) :
    q.stack.length = p.stack.length := by
  unfold Progress.addText at h
  split at h
  · cases h; rfl
  · split at h
    · next hstack => cases h; rw [hstack]; rfl
    · split at h <;> cases h
      rfl

theorem Progress.step_height {token : Token} (h : p.step limit token = .ok q) :
    q.stack.length = token.height p.stack.length := by
  cases token with
  | start tag =>
    rw [Progress.step] at h
    split at h
    · cases h
    · split at h
      · cases h
      · obtain ⟨frame, -, h⟩ := bind_eq_ok_iff.mp h
        cases h
        rfl
  | empty tag =>
    obtain ⟨frame, -, h⟩ := bind_eq_ok_iff.mp h
    split at h
    · cases h
    · cases h
      exact complete_height frame
  | close name =>
    rw [Progress.step] at h
    split at h
    · cases h
    · next frame outer hstack =>
      split at h
      · cases h
        rw [complete_height, hstack]
        rfl
      · cases h
  | text raw =>
    obtain ⟨content, -, h⟩ := bind_eq_ok_iff.mp h
    exact addText_height h
  | cdata content => exact addText_height h
  | aside => cases h; rfl

theorem Progress.steps_height (h : p.steps limit tokens = .ok q) :
    q.stack.length = tokens.foldl Token.height p.stack.length := by
  induction tokens generalizing p with
  | nil => cases h; rfl
  | cons token tokens ih =>
    rw [steps_cons] at h
    obtain ⟨next, hstep, h⟩ := bind_eq_ok_iff.mp h
    rw [ih h, step_height hstep, List.foldl_cons]

theorem Frame.name_of_ofTag {frame : Frame} (h : Frame.ofTag tag = .ok frame) :
    frame.name = String.ofList (splitName tag).1 := by
  obtain ⟨attributes, -, h⟩ := bind_eq_ok_iff.mp h
  cases h
  rfl

/-- A start tag and an end tag do what a self-closing tag does, where a start tag may stand. -/
theorem Progress.steps_open_iff :
    p.steps limit [.start tag, .close (splitName tag).1] = .ok q ↔
      p.steps limit [.empty tag] = .ok q ∧ p.stack.length < limit := by
  simp only [Progress.steps, List.foldlM_cons, List.foldlM_nil, bind_pure]
  rw [Progress.step, Progress.step]
  by_cases hdeep : limit ≤ p.stack.length
  · rw [if_pos hdeep]
    exact iff_of_false (fun h => by cases h) fun h => Nat.not_lt.mpr hdeep h.2
  rw [if_neg hdeep, and_iff_left (Nat.lt_of_not_le hdeep)]
  cases hframe : Frame.ofTag tag with
  | error fault =>
    by_cases hroot : (p.stack.isEmpty && p.document.isSome) = true
    · rw [if_pos hroot]
      exact iff_of_false (fun h => by cases h) fun h => by cases h
    · rw [if_neg hroot]
      exact iff_of_false (fun h => by cases h) fun h => by cases h
  | ok frame =>
    by_cases hroot : (p.stack.isEmpty && p.document.isSome) = true
    · rw [if_pos hroot]
      simp only [mapError_ok, bind, Except.bind, hroot, if_true]
    · rw [if_neg hroot]
      simp only [mapError_ok, bind, Except.bind, hroot, Progress.step, Frame.name_of_ofTag hframe,
        if_true, Bool.false_eq_true, if_false]

end Steps

/-- Whether a document up to a place consists of some pieces, and an element without content that
can be written in both ways stands there. -/
structure SelfClosing (pieces : List Token) (before tag after : List Char) : Prop where
  spelled : Spelled tag
  cut : Cuts (skipMark (before ++ (emptyElement tag ++ after))) pieces (emptyElement tag ++ after)

section Reading

variable {limit : Nat} {pieces : List Token} {before tag after tail : List Char} {v : Value}

theorem skipMark_append (before tail : List Char) :
    skipMark (before ++ '<' :: tail) = skipMark before ++ '<' :: tail := by
  cases before with
  | nil => rfl
  | cons c before =>
    by_cases hc : c = '\uFEFF'
    · rw [hc]
      rfl
    · simp [skipMark, hc]

/-- The pieces up to an element stay the same when the element is written in the other way. -/
theorem SelfClosing.cut_open (h : SelfClosing pieces before tag after) :
    Cuts (skipMark (before ++ (openElement tag ++ after))) pieces (openElement tag ++ after) := by
  have hcut := h.cut
  rw [emptyElement, List.cons_append, skipMark_append] at hcut
  obtain ⟨front, hfront, hother⟩ := hcut.exists_front
  rw [List.append_cancel_right_eq] at hfront
  rw [openElement, List.cons_append, skipMark_append, hfront]
  exact hother _

/-- With the two tags a document is read as with the one, if one more element may be open there. -/
theorem SelfClosing.read_iff (h : SelfClosing pieces before tag after) :
    read limit (document before (openElement tag) after) = .ok v ↔
      read limit (document before (emptyElement tag) after) = .ok v ∧ openAfter pieces < limit := by
  have hshort := h.cut.append (h.spelled.cuts_short after)
  have hlong := h.cut_open.append (h.spelled.cuts_long after)
  rw [read_eq_ok_iff, read_eq_ok_iff, document, document, String.toList_ofList,
    String.toList_ofList]
  constructor
  · rintro ⟨name, w, rfl, hread⟩
    obtain ⟨r, hsteps, hrest⟩ := hlong.reads_iff.mp hread
    rw [Progress.steps_append] at hsteps
    obtain ⟨q, hpieces, hopen⟩ := bind_eq_ok_iff.mp hsteps
    obtain ⟨hempty, hdepth⟩ := Progress.steps_open_iff.mp hopen
    rw [Progress.steps_height hpieces] at hdepth
    refine ⟨⟨name, w, rfl, hshort.reads_iff.mpr ⟨r, ?_, hrest⟩⟩, hdepth⟩
    rw [Progress.steps_append]
    exact bind_eq_ok_iff.mpr ⟨q, hpieces, hempty⟩
  · rintro ⟨⟨name, w, rfl, hread⟩, hdepth⟩
    obtain ⟨r, hsteps, hrest⟩ := hshort.reads_iff.mp hread
    rw [Progress.steps_append] at hsteps
    obtain ⟨q, hpieces, hempty⟩ := bind_eq_ok_iff.mp hsteps
    have hheight : q.stack.length = openAfter pieces := Progress.steps_height hpieces
    refine ⟨name, w, rfl, hlong.reads_iff.mpr ⟨r, ?_, hrest⟩⟩
    rw [Progress.steps_append]
    exact bind_eq_ok_iff.mpr ⟨q, hpieces, Progress.steps_open_iff.mpr ⟨hempty, by rwa [hheight]⟩⟩

end Reading

end Xml

namespace Payload

open Xml

variable {limits : Limits} {pieces : List Token} {before tag after : List Char}
  {text spread : String}

/-- **An element without content is read alike from one tag and from two**, if one more element may
be open where it stands. If none may be, no document is read with the two tags, so that the tags
make a difference exactly if the document is read with the one. -/
theorem read_xml_self_closing (h : SelfClosing pieces before tag after)
    (htext : text = document before (emptyElement tag) after)
    (hspread : spread = document before (openElement tag) after)
    (hsize : text.utf8ByteSize ≤ limits.maxBytes) (hsize' : spread.utf8ByteSize ≤ limits.maxBytes) :
    (read .xml limits spread).toOption =
        (if openAfter pieces < limits.maxDepth then (read .xml limits text).toOption else none) ∧
      ((read .xml limits spread).toOption = (read .xml limits text).toOption ↔
        openAfter pieces < limits.maxDepth ∨ (read .xml limits text).toOption = none) := by
  have hread (v : Value) : read .xml limits spread = .ok v ↔
      read .xml limits text = .ok v ∧ openAfter pieces < limits.maxDepth := by
    rw [read_xml_eq_ok_iff, read_xml_eq_ok_iff, and_iff_right hsize, and_iff_right hsize', htext,
      hspread, h.read_iff]
  have hspread : (read .xml limits spread).toOption =
      if openAfter pieces < limits.maxDepth then (read .xml limits text).toOption else none := by
    ext v
    rw [toOption_eq_some_iff, hread]
    split
    · next hdepth => rw [and_iff_left hdepth, toOption_eq_some_iff]
    · next hdepth => exact iff_of_false (fun h => hdepth h.2) nofun
  refine ⟨hspread, ?_⟩
  rw [hspread]
  split
  · next hdepth => exact iff_of_true rfl (.inl hdepth)
  · next hdepth => rw [or_iff_right hdepth, eq_comm]

/-- An element behind text and a comment, with two elements open around it. -/
theorem selfClosing_sku : SelfClosing
    [.start "order".toList, .start "line n='1'".toList, .text "a ".toList, .aside]
    "<order><line n='1'>a <!-- </line> -->".toList
    (startTag "sku".toList [("c".toList, ">".toList)]) " b</line></order>".toList where
  spelled := spelled_startTag (by decide) (by decide)
  cut := .cons (by decide) rfl (.cons (by decide) rfl (.cons (by decide) rfl
    (.cons (by decide) rfl .nil)))

theorem read_xml_self_closing_sku :
    let order : Value := .object [("order", .object [("line", .object [("@n", .number 1),
      ("#text", .string "a  b"), ("sku", .object [("@c", .string ">")])])])]
    (read .xml ⟨100, 3⟩
        "<order><line n='1'>a <!-- </line> --><sku c=\"&gt;\"/> b</line></order>").toOption =
      some order ∧
    (read .xml ⟨100, 3⟩
        "<order><line n='1'>a <!-- </line> --><sku c=\"&gt;\"></sku> b</line></order>").toOption =
      some order := by
  intro order
  have hshort : (read .xml ⟨100, 3⟩
      "<order><line n='1'>a <!-- </line> --><sku c=\"&gt;\"/> b</line></order>").toOption =
        some order := rfl
  have halike := (read_xml_self_closing selfClosing_sku rfl rfl (by decide) (by decide)).2.mpr
    (.inl (by decide : 2 < (⟨100, 3⟩ : Limits).maxDepth))
  exact ⟨hshort, halike.trans hshort⟩

/-- One level below the nesting limit an element is read from one tag and not from two. -/
theorem read_xml_self_closing_deep :
    document "<a>".toList (emptyElement ['b']) "</a>".toList = "<a><b/></a>" ∧
      document "<a>".toList (openElement ['b']) "</a>".toList = "<a><b></b></a>" ∧
        read .xml ⟨100, 1⟩ "<a><b/></a>" = .ok (.object [("a", .object [("b", .null)])]) ∧
          read .xml ⟨100, 1⟩ "<a><b></b></a>" = .error ⟨.xml, .xml (.tooDeep 1), some 3⟩ :=
  ⟨rfl, rfl, rfl, rfl⟩

end Payload

end Remap
