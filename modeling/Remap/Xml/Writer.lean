import Remap.Value
import Remap.Xml.Escape
import Remap.Xml.Name

/-!
# Writing XML

An object with one entry that is no array names the document element; any other value is wrapped
in an element of its own, and the items of a bare array become its children. Indentation is left
out beside text, where it would add to the text.
-/

namespace Remap.Xml

/-- Why a value has no XML form. -/
inductive WriteFault where
  | badElementName (name : String)
  | badAttributeName (name : String)
  | attributeNotScalar (name : String)
  | textNotScalar (element : String)
  | nestedArray (element : String)
deriving DecidableEq, Repr

def WriteFault.message : WriteFault → String
  | badElementName name => "'" ++ name ++ "' is not a valid element name"
  | badAttributeName name => "'" ++ name ++ "' is not a valid attribute name"
  | attributeNotScalar name => "attribute '" ++ name ++ "' must hold a scalar"
  | textNotScalar element => "#text of <" ++ element ++ "> must be a scalar"
  | nestedArray element => "nested array under <" ++ element ++ "> has no element form"

/-- What a start tag and the text behind it are made of. -/
structure Head where
  attributes : List Char
  text : List Char

/-- The attributes and the text among the entries of an element, behind those found before. -/
def headOf (element : String) : Head → List (String × Value) → Except WriteFault Head
  | head, [] => .ok head
  | head, (key, item) :: rest =>
    match roleOf key with
    | .attribute name =>
      if isName name then
        match item.scalarText? with
        | some text =>
          let written := ' ' :: name ++ '=' :: '"' :: escape text.toList ++ ['"']
          headOf element { head with attributes := head.attributes ++ written } rest
        | none => .error (.attributeNotScalar (String.ofList name))
      else .error (.badAttributeName (String.ofList name))
    | .text =>
      match item.scalarText? with
      | some text => headOf element { head with text := text.toList } rest
      | none => .error (.textNotScalar element)
    | .child => headOf element head rest

/-- Whether one of the entries of an element is a child element. -/
def hasChildren (fields : List (String × Value)) : Bool :=
  fields.any fun (key, _) => roleOf key = .child

/-- The line break before an element at the given depth. -/
def newline (pretty : Bool) (depth : Nat) : List Char :=
  if pretty then '\n' :: List.replicate (2 * depth) ' ' else []

def emptyTag (name : String) : List Char := '<' :: name.toList ++ ['/', '>']

def endTag (name : String) : List Char := '<' :: '/' :: name.toList ++ ['>']

def textElement (name : String) (text : List Char) : List Char :=
  if text.isEmpty then emptyTag name
  else '<' :: name.toList ++ '>' :: escape text ++ endTag name

mutual

def writeElement (pretty : Bool) (depth : Nat) (name : String) : Value →
    Except WriteFault (List Char)
  | .array _ =>
    if isName name.toList then .error (.nestedArray name) else .error (.badElementName name)
  | .object fields =>
    if isName name.toList then do
      let head ← headOf name ⟨[], []⟩ fields
      let opening := '<' :: name.toList ++ head.attributes
      if head.text.isEmpty && !hasChildren fields then .ok (opening ++ ['/', '>'])
      else
        let inner := pretty && head.text.isEmpty
        let children ← writeChildren inner (depth + 1) fields
        let ending := if hasChildren fields then newline inner depth else []
        .ok (opening ++ '>' :: escape head.text ++ children ++ ending ++ endTag name)
    else .error (.badElementName name)
  | scalar =>
    if isName name.toList then .ok (textElement name ((scalar.scalarText?).getD "").toList)
    else .error (.badElementName name)

/-- The entries of an element that are children; an array becomes elements of one name. -/
def writeChildren (pretty : Bool) (depth : Nat) : List (String × Value) →
    Except WriteFault (List Char)
  | [] => .ok []
  | (key, item) :: rest => do
    let first ← match roleOf key with
      | .child =>
        match item with
        | .array items => writeItems pretty depth key items
        | item => (writeElement pretty depth key item).map (newline pretty depth ++ ·)
      | _ => .ok []
    let others ← writeChildren pretty depth rest
    .ok (first ++ others)

/-- The items of an array as elements of one name. -/
def writeItems (pretty : Bool) (depth : Nat) (name : String) : List Value →
    Except WriteFault (List Char)
  | [] => .ok []
  | item :: rest => do
    let first ← writeElement pretty depth name item
    let others ← writeItems pretty depth name rest
    .ok (newline pretty depth ++ first ++ others)

end

/-- The name and the content of the document element of a value. -/
def documentElement (v : Value) : String × Value :=
  match v with
  | .object [(name, .array items)] => ("root", .object [(name, .array items)])
  | .object [(name, content)] =>
    if isName name.toList then (name, content) else ("root", v)
  | .array items => ("root", .object [("item", .array items)])
  | v => ("root", v)

/-- The line that declares the version and the encoding of a document. -/
def declaration : List Char := "<?xml version=\"1.0\" encoding=\"UTF-8\"?>".toList

def write (pretty : Bool) (v : Value) : Except WriteFault String := do
  let (name, content) := documentElement v
  let element ← writeElement pretty 0 name content
  let break_ := if pretty then ['\n'] else []
  .ok (String.ofList (declaration ++ break_ ++ element ++ break_))

end Remap.Xml
