import Remap.Pattern.CharSet

/-!
# Patterns

A pattern describes texts by sets of characters, places between characters, sequences, choices
and repetitions. Of two ways to match, the one that comes first in the pattern is preferred, and a
repetition prefers more or, if it is lazy, fewer copies.
-/

namespace Remap.Pattern

/-- A place between characters. -/
inductive Look where
  | start
  | finish
  /-- The start of a line; under `crlf` a carriage return with its line feed also ends one. -/
  | lineStart (crlf : Bool)
  | lineEnd (crlf : Bool)
  /-- A place between a character of a word and one of none. -/
  | boundary (ascii : Bool)
  | noBoundary (ascii : Bool)
  /-- A place before a word and not inside it. -/
  | wordStart (ascii : Bool)
  /-- A place behind a word and not inside it. -/
  | wordEnd (ascii : Bool)
  /-- A place not behind a character of a word. -/
  | wordStartHalf (ascii : Bool)
  /-- A place not before a character of a word. -/
  | wordEndHalf (ascii : Bool)
deriving DecidableEq, Repr

/-- The tree of a pattern. -/
inductive Node where
  | empty
  | set (s : CharSet)
  | look (l : Look)
  /-- A group; one that captures has a number. -/
  | group (number : Option Nat) (inner : Node)
  /-- At least `min` and, where it is given, at most `max` copies. -/
  | repeated (min : Nat) (max : Option Nat) (greedy : Bool) (inner : Node)
  | sequence (parts : List Node)
  | choice (parts : List Node)
deriving Repr, Inhabited

namespace Node

/-- A sequence; of one part it is the part itself. -/
def ofSequence : List Node → Node
  | [] => empty
  | [part] => part
  | parts => sequence parts

/-- A choice; of one part it is the part itself. -/
def ofChoice : List Node → Node
  | [part] => part
  | parts => choice parts

mutual

def matchesEmpty : Node → Bool
  | empty | look _ => true
  | set _ => false
  | group _ inner => matchesEmpty inner
  | repeated min _ _ inner => min == 0 || matchesEmpty inner
  | sequence parts => allMatchEmpty parts
  | choice parts => anyMatchesEmpty parts

/-- Whether all patterns of a list can match the empty text. -/
def allMatchEmpty : List Node → Bool
  | [] => true
  | n :: ns => matchesEmpty n && allMatchEmpty ns

/-- Whether some pattern of a list can match the empty text. -/
def anyMatchesEmpty : List Node → Bool
  | [] => false
  | n :: ns => matchesEmpty n || anyMatchesEmpty ns

end

mutual

/-- How deeply groups, repetitions, sequences and choices are nested. -/
def depth : Node → Nat
  | empty | set _ | look _ => 0
  | group _ inner | repeated _ _ _ inner => depth inner + 1
  | sequence parts | choice parts => maxDepth parts + 1

def maxDepth : List Node → Nat
  | [] => 0
  | n :: ns => max (depth n) (maxDepth ns)

end

/-- The number of bytes that a set is reckoned at: 32 for each range of ASCII characters, and twice
that for a range beyond. -/
def setWeight (s : CharSet) : Nat :=
  s.ranges.foldl (fun n (_, high) => n + if high < 128 then 32 else 64) 0

mutual

/-- The number of bytes that a pattern is reckoned at, once its repetitions are written out. -/
def weight : Node → Nat
  | empty => 32
  | set s => setWeight s
  | look _ => 32
  | group _ inner => weight inner + 64
  | repeated min max _ inner =>
    match max with
    | some max => min * weight inner + (max - min) * (weight inner + 40)
    | none => Nat.max 1 min * weight inner + 80
  | sequence parts => totalWeight parts
  | choice parts => totalWeight parts + 40

/-- The number of bytes that the patterns of a list are reckoned at. -/
def totalWeight : List Node → Nat
  | [] => 0
  | n :: ns => weight n + totalWeight ns

end

end Node

end Remap.Pattern
