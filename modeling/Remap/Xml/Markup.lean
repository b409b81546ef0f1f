import Remap.Xml.Attribute

/-!
# Markup

A document is cut into character data and markup. Markup runs from `<` to the `>` that closes it,
which depends on its kind: a quoted `>` does not close a tag, and a comment, a CDATA section and
a processing instruction end with marks of their own.
-/

namespace Remap.Xml

/-- A piece of a document. -/
inductive Token where
  /-- Character data as it is written. -/
  | text (raw : List Char)
  | cdata (content : List Char)
  /-- A start tag, without its angle brackets. -/
  | start (tag : List Char)
  /-- A self-closing tag, without its angle brackets and its slash. -/
  | empty (tag : List Char)
  /-- The name in an end tag. -/
  | close (name : List Char)
  /-- A declaration, comment, processing instruction or document type, which carries no data. -/
  | aside
deriving DecidableEq, Repr

/-- Why a document cannot be cut into pieces. -/
inductive MarkupFault where
  | unclosedTag
  | unclosedInstruction
  | unclosedComment
  | unclosedDoctype
  | unclosedCdata
  | unknownMarkup
  | namelessDoctype
deriving DecidableEq, Repr

def MarkupFault.message : MarkupFault → String
  | unclosedTag => "syntax error: tag not closed: \x60>\x60 not found before end of input"
  | unclosedInstruction =>
    "syntax error: processing instruction or xml declaration not closed: \x60?>\x60 not found "
      ++ "before end of input"
  | unclosedComment =>
    "syntax error: comment not closed: \x60-->\x60 not found before end of input"
  | unclosedDoctype =>
    "syntax error: DOCTYPE not closed: \x60>\x60 not found before end of input"
  | unclosedCdata => "syntax error: CDATA not closed: \x60]]>\x60 not found before end of input"
  | unknownMarkup => "syntax error: unknown or missed symbol in markup"
  | namelessDoctype =>
    "ill-formed document: \x60<!DOCTYPE>\x60 declaration does not contain a name of a document "
      ++ "type"

/-- What is found up to a `>` before which `accept` holds of the characters seen, latest first. -/
def untilAngle (accept : List Char → Bool) :
    List Char → List Char → Option (List Char × List Char)
  | _, [] => none
  | seen, c :: rest =>
    if c = '>' ∧ accept seen then some (seen.reverse, rest) else untilAngle accept (c :: seen) rest

/-- What is found up to a `>` outside quotes. -/
def untilTagEnd : Option Char → List Char → List Char → Option (List Char × List Char)
  | _, _, [] => none
  | some quote, seen, c :: rest =>
    untilTagEnd (if c = quote then none else some quote) (c :: seen) rest
  | none, seen, c :: rest =>
    if c = '>' then some (seen.reverse, rest)
    else untilTagEnd (if c = '"' ∨ c = '\'' then some c else none) (c :: seen) rest

/-- Whether the characters seen end a comment, of which the first stands behind `<!`. -/
def endsComment : List Char → Bool
  | '-' :: '-' :: _ :: _ :: _ => true
  | _ => false

/-- Whether the characters seen end a CDATA section. -/
def endsCdata : List Char → Bool
  | ']' :: ']' :: _ => true
  | _ => false

/-- Whether the characters seen end a processing instruction. -/
def endsInstruction : List Char → Bool
  | '?' :: _ => true
  | _ => false

/-- Whether the characters seen open as many angle brackets as they close. -/
def isBalanced (seen : List Char) : Bool := seen.count '<' == seen.count '>'

/-- The piece behind `<!`, with a fault placed by bytes behind the `<`. -/
def readBang (text : List Char) : Except (MarkupFault × Nat) (Token × List Char) :=
  match text with
  | '-' :: _ =>
    match untilAngle endsComment [] text with
    | some ('-' :: '-' :: _, rest) => .ok (.aside, rest)
    | _ => .error (.unclosedComment, 0)
  | '[' :: _ =>
    match untilAngle endsCdata [] text with
    | some (body, rest) =>
      if body.take 7 = "[CDATA[".toList then
        .ok (.cdata ((body.drop 7).take (body.length - 9)), rest)
      else .error (.unclosedCdata, 0)
    | none => .error (.unclosedCdata, 0)
  | c :: _ =>
    if c = 'D' ∨ c = 'd' then
      match untilAngle isBalanced [] text with
      | some (body, rest) =>
        if (body.take 7).map Char.toLower = "doctype".toList then
          if (body.drop 7).all isSpace then
            .error (.namelessDoctype, 2 + Text.byteLength body)
          else .ok (.aside, rest)
        else .error (.unclosedDoctype, 0)
      | none => .error (.unclosedDoctype, 0)
    else .error (.unknownMarkup, 0)
  | [] => .error (.unknownMarkup, 0)

/-- The name in an end tag; white space behind it is no part of it. -/
def closingName (text : List Char) : List Char :=
  match text.reverse.dropWhile isSpace with
  | [] => text
  | name => name.reverse

/-- The piece of a tag between its angle brackets. -/
def tagToken (tag : List Char) : Token :=
  match tag.reverse with
  | '/' :: rest => .empty rest.reverse
  | _ => .start tag

/-- The first piece of a document that is not empty, with a fault placed by bytes. -/
def nextToken (text : List Char) : Except (MarkupFault × Nat) (Token × List Char) :=
  match text with
  | '<' :: '!' :: rest => readBang rest
  | '<' :: '?' :: rest =>
    match untilAngle endsInstruction [] ('?' :: rest) with
    | some (_ :: _ :: _, rest) => .ok (.aside, rest)
    | _ => .error (.unclosedInstruction, 0)
  | '<' :: '/' :: rest =>
    match untilTagEnd none [] rest with
    | some (name, rest) => .ok (.close (closingName name), rest)
    | none => .error (.unclosedTag, 0)
  | '<' :: rest =>
    match untilTagEnd none [] rest with
    | some (tag, rest) => .ok (tagToken tag, rest)
    | none => .error (.unclosedTag, 0)
  | text =>
    let (raw, rest) := text.span (· != '<')
    .ok (.text raw, rest)

end Remap.Xml
