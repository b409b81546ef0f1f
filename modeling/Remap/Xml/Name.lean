import Remap.Text.Letter

/-!
# Names in XML

A name is a local name with at most one prefix. The keys of objects written as XML are element
names, attribute names behind `@`, and `#text`.
-/

namespace Remap.Xml

/-- Whether a text is a name without a prefix. -/
def isLocalName : List Char → Bool
  | [] => false
  | c :: rest =>
    (Text.isAlphabetic c || c == '_')
      && rest.all fun c => Text.isAlphanumeric c || c == '_' || c == '-' || c == '.'

/-- Whether a text may name an element or an attribute. -/
def isName (text : List Char) : Bool :=
  match text.span (· != ':') with
  | (space, _ :: name) => isLocalName space && isLocalName name
  | (name, []) => isLocalName name

def attributeMark : Char := '@'

/-- The key of the text of an element that has attributes or children. -/
def textKey : String := "#text"

/-- What a key of an object stands for in XML. -/
inductive Role where
  | attribute (name : List Char)
  | text
  | child
deriving DecidableEq, Repr

/-- The part of an element that a key stands for. -/
def roleOf (key : String) : Role :=
  match key.toList with
  | '@' :: name => .attribute name
  | _ => if key = textKey then .text else .child

def isKey (key : String) : Bool :=
  match roleOf key with
  | .attribute name => isName name
  | .text => true
  | .child => isName key.toList

end Remap.Xml
