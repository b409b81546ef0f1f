import Remap.Path.Parser

/-!
# Template patterns

A pattern is literal text with placeholders in braces. An empty placeholder and `value` stand for
the value that is transformed, and any other is a path. A doubled brace is a brace of the text.
-/

namespace Remap.Template

/-- A part of a pattern. -/
inductive Part where
  | literal (text : String)
  | value
  | path (p : SourcePath)
deriving DecidableEq, Repr

/-- Why a text is no pattern. -/
inductive Fault where
  | unclosed (pattern : String)
  | unmatched (pattern : String)
  | badPath (name : String) (error : Path.Error)
deriving DecidableEq, Repr

def Fault.message : Fault → String
  | unclosed pattern => "unclosed placeholder in template '" ++ pattern ++ "'"
  | unmatched pattern => "unmatched '\x7d' in template '" ++ pattern ++ "'"
  | badPath name error => "placeholder '\x7b" ++ name ++ "\x7d': " ++ error.message

def placeholder (inner : List Char) : Except Fault Part :=
  let name := Text.trim (String.ofList inner)
  if name = "" ∨ name = "value" then .ok .value
  else match SourcePath.parse name with
    | .ok p => .ok (.path p)
    | .error e => .error (.badPath name e)

/-- The literal that has been read, in reverse, as a part in front of others. -/
def flush (literal : List Char) (parts : List Part) : List Part :=
  if literal.isEmpty then parts else .literal (String.ofList literal.reverse) :: parts

/-- The parts of a rest of a pattern. `literal` is the literal text before it, in reverse, and
`fuel` bounds the number of characters. -/
def readParts (pattern : String) : Nat → List Char → List Char → Except Fault (List Part)
  | 0, literal, _ => .ok (flush literal [])
  | _, literal, [] => .ok (flush literal [])
  | fuel + 1, literal, '\x7b' :: rest =>
    match rest with
    | '\x7b' :: rest => readParts pattern fuel ('\x7b' :: literal) rest
    | rest =>
      let (inner, rest) := rest.span fun c => c != '\x7b' && c != '\x7d'
      match rest with
      | '\x7d' :: rest => do
        let part ← placeholder inner
        let parts ← readParts pattern fuel [] rest
        .ok (flush literal (part :: parts))
      | _ => .error (.unclosed pattern)
  | fuel + 1, literal, '\x7d' :: rest =>
    match rest with
    | '\x7d' :: rest => readParts pattern fuel ('\x7d' :: literal) rest
    | _ => .error (.unmatched pattern)
  | fuel + 1, literal, c :: rest => readParts pattern fuel (c :: literal) rest

def parse (pattern : String) : Except Fault (List Part) :=
  let chars := pattern.toList
  readParts pattern chars.length [] chars

/-- The paths that a pattern reads. -/
def paths (parts : List Part) : List SourcePath :=
  parts.filterMap fun
    | .path p => some p
    | _ => none

end Remap.Template
