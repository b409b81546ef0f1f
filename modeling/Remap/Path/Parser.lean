import Remap.Path.Basic

/-!
# Reading paths

A path is read segment by segment. An error names its cause and the byte of the text at which it
is reported, mostly the start of the segment.
-/

namespace Remap.Path

/-- Why a text is no path. -/
inductive Cause where
  | missingKey
  | unclosedWildcard
  | unclosedQuote
  | unclosedQuotedKey
  | emptyQuotedKey
  | unclosedIndex
  | indexTooLarge (digits : String)
  | badBracket
  | whiteSpace
  | unexpected (c : Char)
  | absoluteTarget
  | wildcardTarget
deriving DecidableEq, Repr

def Cause.message : Cause → String
  | missingKey => "expected a key after '.'"
  | unclosedWildcard => "expected ']' after '[*'"
  | unclosedQuote => "unterminated quoted key"
  | unclosedQuotedKey => "expected ']' after quoted key"
  | emptyQuotedKey => "empty quoted key"
  | unclosedIndex => "expected ']' after index"
  | indexTooLarge digits => "index " ++ digits ++ " is out of range"
  | badBracket => "expected an index, '*' or a quoted key after '['"
  | whiteSpace => "whitespace is not allowed in a path"
  | unexpected c => "unexpected '" ++ c.toString ++ "'; segments start with '.' or '['"
  | absoluteTarget =>
    "target paths are relative to the output scope and cannot start with '$'"
  | wildcardTarget => "target paths cannot contain '[*]'"

/-- A text that is no path. -/
structure Error where
  cause : Cause
  position : Nat
deriving DecidableEq, Repr

def Error.message (e : Error) : String :=
  e.cause.message ++ " at offset " ++ toString e.position

/-- A cause with the rest of the text from the place where it is reported. -/
abbrev Fault := Cause × List Char

/-- The segment behind an opening bracket, of which `text` starts at the bracket. -/
def readBracket (text : List Char) : Except Fault (Segment × List Char) :=
  match text.drop 1 with
  | '*' :: ']' :: rest => .ok (.wildcard, rest)
  | '*' :: _ => .error (.unclosedWildcard, text)
  | '"' :: rest =>
    let (name, rest) := rest.span (· != '"')
    match rest with
    | [] => .error (.unclosedQuote, text)
    | _ :: ']' :: rest =>
      if name.isEmpty then .error (.emptyQuotedKey, text)
      else .ok (.key (String.ofList name), rest)
    | rest => .error (.unclosedQuotedKey, rest)
  | rest =>
    let (digits, rest) := rest.span Decimal.isDigit
    if digits.isEmpty then .error (.badBracket, text)
    else match rest with
      | ']' :: rest =>
        let n := Decimal.ofDigits digits
        if n < indexCount then .ok (.index n, rest)
        else .error (.indexTooLarge (String.ofList digits), text)
      | _ => .error (.unclosedIndex, text)

/-- The first segment of a rest of a path, of which `text` is not empty. -/
def readSegment (text : List Char) : Except Fault (Segment × List Char) :=
  match text with
  | '.' :: rest =>
    let (name, rest) := rest.span isKeyChar
    if name.isEmpty then .error (.missingKey, text) else .ok (.key (String.ofList name), rest)
  | '[' :: _ => readBracket text
  | c :: _ => .error (if Text.isBlank c then .whiteSpace else .unexpected c, text)
  | [] => .error (.missingKey, text)

/-- The segments of a rest of a path; `fuel` bounds their number. -/
def readSegments : Nat → List Char → Except Fault (List Segment)
  | 0, _ => .ok []
  | _, [] => .ok []
  | fuel + 1, text => do
    let (segment, rest) ← readSegment text
    let segments ← readSegments fuel rest
    .ok (segment :: segments)

def readChars (text : List Char) : Except Fault (Bool × List Segment) :=
  match text with
  | [] | ['.'] => .ok (false, [])
  | '$' :: rest => (readSegments rest.length rest).map fun segments => (true, segments)
  | text =>
    let (name, rest) := text.span isKeyChar
    let first := if name.isEmpty then [] else [Segment.key (String.ofList name)]
    (readSegments rest.length rest).map fun segments => (false, first ++ segments)

/-- The anchor and the segments of a text, with errors placed. -/
def read (text : String) : Except Error (Bool × List Segment) :=
  let chars := text.toList
  (readChars chars).mapError fun (cause, rest) =>
    ⟨cause, Text.byteLength chars - Text.byteLength rest⟩

end Remap.Path

namespace Remap

def SourcePath.parse (text : String) : Except Path.Error SourcePath :=
  (Path.read text).map fun (absolute, segments) => ⟨absolute, segments⟩

def TargetPath.parse (text : String) : Except Path.Error TargetPath := do
  let (absolute, segments) ← Path.read text
  if absolute then .error ⟨.absoluteTarget, 0⟩
  else if segments.contains .wildcard then .error ⟨.wildcardTarget, 0⟩
  else .ok ⟨segments⟩

end Remap
