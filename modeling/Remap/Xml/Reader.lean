import Remap.Xml.Markup
import Remap.Text.Basic
import Remap.Value

/-!
# Reading XML

The document element becomes an object with one key. Attributes stand under `@name`, text beside
attributes or children under `#text`, and sibling elements of one name become an array. Text is
typed by its form: `true`, `false`, a JSON number, or else a string.

Text is kept as it is. Runs of white space beside child elements are layout and are dropped, save
those in CDATA sections.
-/

namespace Remap.Xml

/-- Why a text is no document. -/
inductive Fault where
  | markup (fault : MarkupFault)
  | tag (fault : TagFault)
  | escape (fault : EscapeFault)
  | unmatchedClose (name : String)
  | mismatchedClose (expected found : String)
  | tooDeep (limit : Nat)
  | manyRoots
  | noRoot
  | strayText
  | unclosed (name : String)
deriving DecidableEq, Repr

def Fault.message : Fault → String
  | markup fault => fault.message
  | tag fault => fault.message
  | escape fault => fault.message
  | unmatchedClose name =>
    "ill-formed document: close tag \x60</" ++ name ++ ">\x60 does not match any open tag"
  | mismatchedClose expected found =>
    "ill-formed document: expected \x60</" ++ expected ++ ">\x60, but \x60</" ++ found
      ++ ">\x60 was found"
  | tooDeep limit => "nesting depth exceeds limit of " ++ toString limit
  | manyRoots => "document has more than one root element"
  | noRoot => "document has no root element"
  | strayText => "text outside the document element"
  | unclosed name => "unclosed element <" ++ name ++ ">"

/-- A fault with the byte it is reported at. -/
structure Located where
  fault : Fault
  offset : Nat
deriving DecidableEq, Repr

/-- The value that the text of an element or attribute stands for. -/
def infer (text : List Char) : Value :=
  let s := String.ofList text
  match s with
  | "true" => .bool true
  | "false" => .bool false
  | _ =>
    match Decimal.readNumber? s with
    | some n => .number n
    | none => .string s

/-- A run of character data. -/
structure TextRun where
  content : List Char
  cdata : Bool

/-- Whether a run only sets out the markup around it. -/
def TextRun.isLayout (run : TextRun) : Bool := !run.cdata && run.content.all Text.isBlank

/-- An element that is being read, with its runs of text in order. -/
structure Frame where
  name : String
  attributes : List (String × Value)
  children : List (String × Value)
  text : List TextRun

namespace Frame

/-- The element that a tag opens. -/
def ofTag (tag : List Char) : Except TagFault Frame := do
  let attributes ← attributesOf tag
  let entries := attributes.foldl
    (fun es a => Entries.put (String.ofList (attributeMark :: a.key)) (infer a.value) es) []
  .ok ⟨String.ofList (splitName tag).1, entries, [], []⟩
where
  attributeMark : Char := '@'

/-- The element with one more child. A second child of a name starts an array. -/
def addChild (frame : Frame) (name : String) (value : Value) : Frame :=
  let value := match Entries.get? name frame.children with
    | some (.array items) => .array (items ++ [value])
    | some first => .array [first, value]
    | none => value
  { frame with children := Entries.put name value frame.children }

def addText (frame : Frame) (run : TextRun) : Frame := { frame with text := frame.text ++ [run] }

/-- The text of an element; beside children, layout is no part of it. -/
def content (frame : Frame) : List Char :=
  (frame.text.filter fun run => frame.children.isEmpty || !run.isLayout).flatMap (·.content)

/-- The value of an element that is complete. -/
def value (frame : Frame) : Value :=
  let text := frame.content
  if frame.attributes.isEmpty && frame.children.isEmpty then
    if text.isEmpty then .null else infer text
  else
    let own := if text.isEmpty then frame.attributes
      else Entries.put "#text" (infer text) frame.attributes
    .object (frame.children.foldl (fun es (name, child) => Entries.put name child es) own)

end Frame

/-- How far a document is read: the open elements, innermost first, and the document element. -/
structure Progress where
  stack : List Frame
  document : Option (String × Value)

namespace Progress

/-- A complete element is added to the one around it or becomes the document element. -/
def complete (p : Progress) (frame : Frame) : Progress :=
  match p.stack with
  | parent :: outer => { p with stack := parent.addChild frame.name frame.value :: outer }
  | [] => { p with document := some (frame.name, frame.value) }

/-- A run of character data; outside the document element only layout may stand. -/
def addText (p : Progress) (run : TextRun) : Except Fault Progress :=
  if run.content.isEmpty then .ok p
  else match p.stack with
    | frame :: outer => .ok { p with stack := frame.addText run :: outer }
    | [] => if run.isLayout then .ok p else .error .strayText

/-- Reads one piece of a document. Start tags are bound by the nesting limit. -/
def step (limit : Nat) (p : Progress) : Token → Except Fault Progress
  | .start tag =>
    if limit ≤ p.stack.length then .error (.tooDeep limit)
    else if p.stack.isEmpty && p.document.isSome then .error .manyRoots
    else do
      let frame ← (Frame.ofTag tag).mapError Fault.tag
      .ok { p with stack := frame :: p.stack }
  | .empty tag => do
    let frame ← (Frame.ofTag tag).mapError Fault.tag
    if p.stack.isEmpty && p.document.isSome then .error .manyRoots
    else .ok (p.complete frame)
  | .close name =>
    match p.stack with
    | [] => .error (.unmatchedClose (String.ofList name))
    | frame :: outer =>
      if frame.name = String.ofList name then .ok (complete { p with stack := outer } frame)
      else .error (.mismatchedClose frame.name (String.ofList name))
  | .text raw => do
    let content ← (unescape raw).mapError Fault.escape
    p.addText ⟨content, false⟩
  | .cdata content => p.addText ⟨content, true⟩
  | .aside => .ok p

/-- The value of a document of `size` bytes that has been read to its end. -/
def finish (p : Progress) (size : Nat) : Except Located Value :=
  match p.stack, p.document with
  | frame :: _, _ => .error ⟨.unclosed frame.name, size⟩
  | [], some (name, value) => .ok (.object [(name, value)])
  | [], none => .error ⟨.noRoot, 0⟩

end Progress

/-- A fault so many bytes behind the start of what is left of a document of `size` bytes. -/
def fail {α : Type} (size : Nat) (left : List Char) (behind : Nat) (fault : Fault) :
    Except Located α :=
  .error ⟨fault, size - Text.byteLength left + behind⟩

/-- Reads what is left of a document of `size` bytes piece by piece. -/
def readFrom (limit size : Nat) : Nat → Progress → List Char → Except Located Progress
  | 0, p, _ => .ok p
  | _, p, [] => .ok p
  | fuel + 1, p, text =>
    match nextToken text with
    | .error (fault, behind) => fail size text behind (.markup fault)
    | .ok (token, rest) =>
      match p.step limit token with
      | .error fault => fail size text 0 fault
      | .ok p => readFrom limit size fuel p rest

/-- The text behind a byte order mark. -/
def skipMark : List Char → List Char
  | '\uFEFF' :: rest => rest
  | text => text

/-- The value of an XML document whose start tags nest at most `limit` deep. Positions do not count
a byte order mark. -/
def read (limit : Nat) (text : String) : Except Located Value := do
  let body := skipMark text.toList
  let p ← readFrom limit (Text.byteLength body) (body.length + 1) ⟨[], none⟩ body
  p.finish text.utf8ByteSize

end Remap.Xml
