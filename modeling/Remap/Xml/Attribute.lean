import Remap.Xml.Escape

/-!
# Attributes of a tag

The part of a tag after its name is a list of keys with quoted values. Positions in messages are
bytes within the tag, counted from its name.
-/

namespace Remap.Xml

/-- The white space that separates the parts of a tag. -/
def isSpace (c : Char) : Bool := c = ' ' ∨ c = '\r' ∨ c = '\n' ∨ c = '\t'

/-- Why a list of attributes cannot be read. -/
inductive AttributeFault where
  | expectedEquals (position : Nat)
  | expectedValue (position : Nat)
  | unquoted (position : Nat)
  | unclosedQuote (position : Nat) (quote : Char)
  | duplicate (position previous : Nat)
deriving DecidableEq, Repr

def AttributeFault.message : AttributeFault → String
  | expectedEquals p =>
    "position " ++ toString p ++ ": attribute key must be directly followed by \x60=\x60 or space"
  | expectedValue p =>
    "position " ++ toString p ++ ": \x60=\x60 must be followed by an attribute value"
  | unquoted p =>
    "position " ++ toString p ++ ": attribute value must be enclosed in \x60\"\x60 or \x60'\x60"
  | unclosedQuote p quote =>
    "position " ++ toString p ++ ": missing closing quote \x60" ++ quote.toString
      ++ "\x60 in attribute value"
  | duplicate p previous =>
    "position " ++ toString p ++ ": duplicated attribute, previous declaration at position "
      ++ toString previous

/-- An attribute with its value unescaped and the position of its key. -/
structure Attribute where
  position : Nat
  key : List Char
  value : List Char
deriving DecidableEq, Repr

/-- The position of a rest of a tag of `size` bytes. -/
def positionOf (size : Nat) (rest : List Char) : Nat := size - Text.byteLength rest

/-- A key with the text behind its equals sign. -/
def readKey (size : Nat) (text : List Char) : Except AttributeFault (List Char × List Char) :=
  match text with
  | [] => .error (.expectedEquals size)
  | first :: text =>
    let (tail, rest) := text.span fun c => c != '=' && !isSpace c
    match rest.dropWhile isSpace with
    | '=' :: rest => .ok (first :: tail, rest)
    | rest => .error (.expectedEquals (positionOf size rest))

/-- A quoted value with the text behind its closing quote. -/
def readQuoted (size : Nat) (text : List Char) : Except AttributeFault (List Char × List Char) :=
  match text.dropWhile isSpace with
  | [] => .error (.expectedValue size)
  | quote :: rest =>
    if quote = '"' ∨ quote = '\'' then
      let (value, rest) := rest.span (· != quote)
      match rest with
      | [] => .error (.unclosedQuote size quote)
      | _ :: rest => .ok (value, rest)
    else .error (.unquoted (positionOf size (quote :: rest)))

/-- Why a tag cannot be read: its attributes are malformed, or one of their values is. -/
inductive TagFault where
  | malformed (fault : AttributeFault)
  | escape (fault : EscapeFault)
deriving DecidableEq, Repr

def TagFault.message : TagFault → String
  | malformed fault => fault.message
  | escape fault => fault.message

/-- The attributes of a rest of a tag, behind those already read. Keys must differ. The first fault
in the order of the text counts, be it in the list or in a value. -/
def readAttributes (size : Nat) :
    Nat → List Attribute → List Char → Except TagFault (List Attribute)
  | 0, read, _ => .ok read.reverse
  | fuel + 1, read, text =>
    match text.dropWhile isSpace with
    | [] => .ok read.reverse
    | text => do
      let position := positionOf size text
      let (key, rest) ← (readKey size text).mapError TagFault.malformed
      match read.find? fun a => a.key == key with
      | some previous => .error (.malformed (.duplicate position previous.position))
      | none =>
        let (raw, rest) ← (readQuoted size rest).mapError TagFault.malformed
        let value ← (unescape raw).mapError TagFault.escape
        readAttributes size fuel (⟨position, key, value⟩ :: read) rest

/-- The name of a tag with the text after it. -/
def splitName (tag : List Char) : List Char × List Char := tag.span fun c => !isSpace c

def attributesOf (tag : List Char) : Except TagFault (List Attribute) :=
  readAttributes (Text.byteLength tag) (tag.length + 1) [] (splitName tag).2

end Remap.Xml
