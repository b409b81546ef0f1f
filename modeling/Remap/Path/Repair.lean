import Remap.Path.Parser
import Remap.Path.Basic

/-!
# Repairing paths

White space around marks, doubled dots, and dots before a bracket or at the end are slips that
leave no doubt about what was meant. A text with such slips is repaired; one that is well formed,
holds a quote, or stays malformed is left alone.
-/

namespace Remap.Path

/-- The marks around which white space is a slip. -/
def isMark (c : Char) : Bool := c = '.' ∨ c = '[' ∨ c = ']'

/-- Whether a text ends, or goes on with a mark behind white space. -/
def meetsMark (text : List Char) : Bool :=
  match text.dropWhile Text.isBlank with
  | [] => true
  | c :: _ => isMark c

/-- Drops slips from a text. `kept` is what has been kept of the text before it, in reverse, and so
is the result. -/
def dropSlips : List Char → List Char → List Char
  | kept, [] => kept
  | kept, c :: rest =>
    if Text.isBlank c then
      let behindMark := match kept with
        | [] => true
        | last :: _ => isMark last
      if behindMark || meetsMark rest then dropSlips kept rest else dropSlips (c :: kept) rest
    else match kept with
      | '.' :: before =>
        if c = '.' then dropSlips kept rest
        else if c = '[' then dropSlips (c :: before) rest
        else dropSlips (c :: kept) rest
      | kept => dropSlips (c :: kept) rest

/-- Drops the dots at the end of a text in reverse, down to its last character. -/
def dropTrailingDots : List Char → List Char
  | '.' :: c :: rest => dropTrailingDots (c :: rest)
  | text => text

def clean (text : String) : String :=
  String.ofList (dropTrailingDots (dropSlips [] text.toList)).reverse

/-- The canonical text of the path that was meant, if the text has slips and nothing else is wrong
with it. -/
def repair? (text : String) : Option String :=
  match SourcePath.parse text with
  | .ok _ => none
  | .error _ =>
    if text.toList.contains '"' then none
    else match SourcePath.parse (clean text) with
      | .ok path => some path.text
      | .error _ => none

end Remap.Path
