import Remap.Decimal.Layout
import Remap.Decimal.Literal
import Remap.Text.Basic

/-!
# Paths

A path addresses a place in a tree by keys, indices and wildcards. Source paths start at the
current scope, or at the root of the input document when they begin with `$`. Target paths start
at the current output scope and hold no wildcard.

```text
path    := "" | "." | "$" segment* | key segment* | segment*
segment := "." key | "[" digits "]" | "[*]" | "[\"" quoted "\"]"
key     := one or more characters other than . [ ] " and white space
```

The canonical text of a path has as few marks as its segments allow. Keys that hold a mark or white
space are quoted, and the empty relative path is a dot.
-/

namespace Remap

/-- A step of a path. A wildcard stands for the index of an enclosing split. -/
inductive Segment where
  | key (name : String)
  | index (n : Nat)
  | wildcard
deriving DecidableEq, Repr

/-- A place in the input. -/
structure SourcePath where
  absolute : Bool
  segments : List Segment
deriving DecidableEq, Repr

/-- A place in the output. -/
structure TargetPath where
  segments : List Segment
deriving DecidableEq, Repr

namespace Segment

def key? : Segment → Option String
  | key name => some name
  | _ => none

end Segment

namespace SourcePath

def wildcards (p : SourcePath) : Nat := p.segments.count .wildcard

def keys (p : SourcePath) : List String := p.segments.filterMap Segment.key?

end SourcePath

namespace TargetPath

/-- Whether a path addresses the scope itself. -/
def isRoot (p : TargetPath) : Bool := p.segments.isEmpty

def keys (p : TargetPath) : List String := p.segments.filterMap Segment.key?

end TargetPath

namespace Path

/-- Whether a character may stand in a key outside quotes. -/
def isKeyChar (c : Char) : Bool :=
  c != '.' && c != '[' && c != ']' && c != '"' && !Text.isBlank c

/-- The number of indices: an index fits 64 bits. -/
def indexCount : Nat := UInt64.size

end Path

end Remap

/-! ## Canonical text -/

namespace Remap.Path

/-- Whether a key stands outside quotes. -/
def isPlainKey (name : String) : Bool := name.toList.all isKeyChar

/-- A segment as it is written; a plain key at the start of a relative path has no dot. -/
def segmentText (atStart : Bool) : Segment → List Char
  | .key name =>
    if isPlainKey name then (if atStart then [] else ['.']) ++ name.toList
    else '[' :: '"' :: name.toList ++ ['"', ']']
  | .index n => '[' :: Decimal.Layout.natText n ++ [']']
  | .wildcard => ['[', '*', ']']

def render (absolute : Bool) (segments : List Segment) : List Char :=
  if absolute then '$' :: segments.flatMap (segmentText false)
  else match segments with
    | [] => ['.']
    | first :: rest => segmentText true first ++ rest.flatMap (segmentText false)

end Remap.Path

namespace Remap

def SourcePath.text (p : SourcePath) : String :=
  String.ofList (Path.render p.absolute p.segments)

def TargetPath.text (p : TargetPath) : String := String.ofList (Path.render false p.segments)

end Remap
