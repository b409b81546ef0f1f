import Remap.Proofs.Results
import Remap.Proofs.Xml.Tag
import Remap.Xml.Writer

/-!
# Reading a text piece by piece

`Reads` says how a text takes the reader from one state to another, so that a text can be read
part by part. What the writer puts into a text is read with one lemma for each kind of piece.
-/

namespace Remap.Xml

variable {limit : Nat} {p q r : Progress} {text rest : List Char}

/-- A text takes the reader from one state to another. -/
inductive Reads (limit : Nat) : Progress → List Char → Progress → Prop
  | nil {p : Progress} : Reads limit p [] p
  | step {p q r : Progress} {text rest : List Char} {token : Token}
      (htoken : nextToken text = .ok (token, rest)) (hless : rest.length < text.length)
      (hstep : p.step limit token = .ok q) (hrest : Reads limit q rest r) : Reads limit p text r

theorem Reads.readFrom (h : Reads limit p text q) (size : Nat) :
    ∀ fuel, text.length < fuel → readFrom limit size fuel p text = .ok q := by
  induction h with
  | nil =>
    intro fuel _
    cases fuel <;> rfl
  | @step p q r text rest token htoken hless hstep _ ih =>
    intro fuel hfuel
    obtain ⟨fuel, rfl⟩ := Nat.exists_eq_succ_of_ne_zero (Nat.ne_of_gt (Nat.zero_lt_of_lt hfuel))
    have hrest := ih fuel (by omega)
    cases text with
    | nil => cases hless
    | cons c text => simp only [Xml.readFrom, htoken, hstep, hrest]

/-- A document is read if its text takes the reader to the end of an element. -/
theorem read_of_reads {name : String} {v : Value} (htext : skipMark text = text)
    (h : Reads limit ⟨[], none⟩ text ⟨[], some (name, v)⟩) :
    read limit (String.ofList text) = .ok (.object [(name, v)]) := by
  have hread := h.readFrom (Text.byteLength text) (text.length + 1) (Nat.lt_succ_self _)
  rw [read, String.toList_ofList, htext, hread]
  rfl

/-- A complete element is added to the one around it or becomes the document element. -/
def Progress.add (p : Progress) (name : String) (v : Value) : Progress :=
  match p.stack with
  | parent :: outer => { p with stack := parent.addChild name v :: outer }
  | [] => { p with document := some (name, v) }

theorem Progress.complete_eq (p : Progress) (frame : Frame) :
    p.complete frame = p.add frame.name frame.value := rfl

/-- The element with a run of text behind what is in it. -/
def Frame.addRun (frame : Frame) (text : List Char) : Frame :=
  if text.isEmpty then frame else frame.addText ⟨text, false⟩

section Pieces

variable {frame : Frame} {outer : List Frame} {document : Option (String × Value)}
  {name : List Char} {attributes : List (List Char × List Char)}

theorem nextToken_declaration : nextToken (declaration ++ rest) = .ok (.aside, rest) := rfl

theorem reads_declaration (h : Reads limit p rest q) : Reads limit p (declaration ++ rest) q := by
  have hless : rest.length < (declaration ++ rest).length := by
    have : 0 < declaration.length := by decide
    rw [List.length_append]
    omega
  exact .step nextToken_declaration hless rfl h

/-- Text is read up to the markup behind it. -/
theorem reads_text (hmarkup : text ≠ [] → ∃ tail, rest = '<' :: tail)
    (h : Reads limit ⟨frame.addRun text :: outer, document⟩ rest q) :
    Reads limit ⟨frame :: outer, document⟩ (escape text ++ rest) q := by
  by_cases htext : text = []
  · rwa [htext] at h ⊢
  · obtain ⟨tail, rfl⟩ := hmarkup htext
    have hraw : escape text ≠ [] := mt escape_eq_nil_iff.mp htext
    have hless := List.length_pos_of_ne_nil hraw
    refine .step (nextToken_text hraw (notMem_escape (by decide) _)) (by simp; omega) ?_ h
    simp [Progress.step, unescape_escape, mapError_ok, bind, Except.bind, Progress.addText,
      Frame.addRun, htext]

/-- Line breaks outside of the document element are passed over. -/
theorem reads_outside (hmarkup : rest ≠ [] → ∃ tail, rest = '<' :: tail)
    (h : Reads limit ⟨[], document⟩ rest q) : Reads limit ⟨[], document⟩ ('\n' :: rest) q := by
  have htoken : nextToken ('\n' :: rest) = .ok (.text ['\n'], rest) := by
    by_cases hrest : rest = []
    · rw [hrest]
      rfl
    · obtain ⟨tail, rfl⟩ := hmarkup hrest
      have hplain : '<' ∉ ['\n'] := by decide
      exact nextToken_text (List.cons_ne_nil _ _) hplain
  exact .step htoken (by simp) rfl h

theorem isSecondRoot_eq_false (h : p.stack = [] → p.document = none) :
    (p.stack.isEmpty && p.document.isSome) = false := by
  cases hstack : p.stack with
  | nil => simp [h hstack]
  | cons frame outer => simp

/-- A start tag opens an element, unless that would be nested too deeply or be a second root. -/
theorem reads_start (hname : isName name) (hnames : ∀ a ∈ attributes, isName a.1)
    (hdistinct : (attributes.map (·.1)).Nodup) (hdepth : p.stack.length < limit)
    (hroot : p.stack = [] → p.document = none)
    (h : Reads limit { p with
      stack := ⟨String.ofList name, readEntries attributes, [], []⟩ :: p.stack } rest q) :
    Reads limit p ('<' :: (startTag name attributes ++ '>' :: rest)) q := by
  have htoken := nextToken_tag rest hname name_prefix_startTag (closed_startTag hname hnames)
  rw [tagToken_startTag hname] at htoken
  refine .step htoken (by simp; omega) ?_ h
  have hfirst := isSecondRoot_eq_false hroot
  rw [Progress.step, if_neg (Nat.not_le.mpr hdepth), hfirst, ofTag_startTag hname hnames hdistinct]
  rfl

theorem reads_empty (hname : isName name) (hnames : ∀ a ∈ attributes, isName a.1)
    (hdistinct : (attributes.map (·.1)).Nodup) (hroot : p.stack = [] → p.document = none)
    (h : Reads limit (p.complete ⟨String.ofList name, readEntries attributes, [], []⟩) rest q) :
    Reads limit p ('<' :: (startTag name attributes ++ '/' :: '>' :: rest)) q := by
  have hclosed : Closed (startTag name attributes ++ ['/']) :=
    (closed_startTag hname hnames).append (.of_plain (by simp))
  have htoken := nextToken_tag rest hname (name_prefix_startTag.trans (List.prefix_append _ _))
    hclosed
  rw [tagToken_slash, List.append_assoc] at htoken
  refine .step htoken (by simp; omega) ?_ h
  have hfirst := isSecondRoot_eq_false hroot
  rw [Progress.step, ofTag_startTag hname hnames hdistinct]
  simp only [mapError_ok, bind, Except.bind, hfirst, Bool.false_eq_true, if_false]

theorem reads_end (hname : isName name) (hopen : frame.name = String.ofList name)
    (h : Reads limit (Progress.complete ⟨outer, document⟩ frame) rest q) :
    Reads limit ⟨frame :: outer, document⟩ ('<' :: '/' :: (name ++ '>' :: rest)) q := by
  refine .step (nextToken_endTag hname) (by simp; omega) ?_ h
  simp [Progress.step, hopen]

end Pieces

end Remap.Xml
