import Remap.Pattern.Parser
import Remap.Pattern.Program

/-!
# Searching with patterns

A search tries the preferred way first and goes back to the next. No instruction is tried twice at
one place of the text: what failed there before fails again, and an empty loop ends.
-/

namespace Remap.Pattern

/-- The characters of a text by position. -/
abbrev Subject := Array Char

namespace Subject

def before? (t : Subject) (place : Nat) : Option Char :=
  match place with
  | 0 => none
  | place + 1 => t[place]?

def isWordAt (ascii : Bool) : Option Char → Bool
  | none => false
  | some c => if ascii then c.isAlphanum || c == '_' else Text.isWord c

/-- Whether a place is of the given sort. -/
def looksAt (t : Subject) (place : Nat) (l : Look) : Bool :=
  let before := before? t place
  let after := t[place]?
  match l with
  | .start => place == 0
  | .finish => after.isNone
  | .lineStart crlf =>
    before.isNone || before == some '\n'
      || (crlf && before == some '\r' && after != some '\n')
  | .lineEnd crlf =>
    after.isNone || (crlf && after == some '\r')
      || (after == some '\n' && !(crlf && before == some '\r'))
  | .boundary ascii => isWordAt ascii before != isWordAt ascii after
  | .noBoundary ascii => isWordAt ascii before == isWordAt ascii after
  | .wordStart ascii => !isWordAt ascii before && isWordAt ascii after
  | .wordEnd ascii => isWordAt ascii before && !isWordAt ascii after
  | .wordStartHalf ascii => !isWordAt ascii before
  | .wordEndHalf ascii => !isWordAt ascii after

end Subject

/-- A thing left to do: try an instruction at a place, or take back what was saved in a slot. -/
inductive Task where
  | visit (instruction place : Nat)
  | restore (slot : Nat) (old : Option Nat)

/-- What a search knows: the tries made, by instruction and place, and the places saved. -/
structure Trail where
  tried : Array Bool
  slots : Array (Option Nat)

/-- Does the tasks in order until an instruction reports a match; `fuel` bounds their number. The
result holds the place where the match ends. -/
def follow (p : Program) (t : Subject) : Nat → List Task → Trail → Option Nat × Trail
  | 0, _, trail => (none, trail)
  | _, [], trail => (none, trail)
  | fuel + 1, .restore slot old :: tasks, trail =>
    follow p t fuel tasks { trail with slots := trail.slots.set! slot old }
  | fuel + 1, .visit instruction place :: tasks, trail =>
    let key := instruction * (t.size + 1) + place
    if (trail.tried[key]?).getD true then follow p t fuel tasks trail
    else
      let trail := { trail with tried := trail.tried.set! key true }
      match p[instruction]? with
      | none => follow p t fuel tasks trail
      | some .done => (some place, trail)
      | some (.take s next) =>
        match t[place]? with
        | some c =>
          if s.contains c.toNat then follow p t fuel (.visit next (place + 1) :: tasks) trail
          else follow p t fuel tasks trail
        | none => follow p t fuel tasks trail
      | some (.look l next) =>
        if t.looksAt place l then follow p t fuel (.visit next place :: tasks) trail
        else follow p t fuel tasks trail
      | some (.split first second) =>
        follow p t fuel (.visit first place :: .visit second place :: tasks) trail
      | some (.save slot next) =>
        let old := (trail.slots[slot]?).join
        follow p t fuel (.visit next place :: .restore slot old :: tasks)
          { trail with slots := trail.slots.set! slot (some place) }

/-- A match: where it starts and ends, and the places saved for its groups. -/
structure Match where
  start : Nat
  finish : Nat
  slots : Array (Option Nat)

/-- A pattern with its program. -/
structure Matcher where
  pattern : Pattern
  first : Nat
  program : Program

namespace Matcher

def ofPattern (p : Pattern) : Matcher :=
  let (first, program) := Program.ofNode p.root
  ⟨p, first, program⟩

/-- The match that starts first among those that start at `start` or at the `count` places behind
it. -/
def matchFrom (m : Matcher) (t : Subject) (start : Nat) : Nat → Trail → Option Match
  | count, trail =>
    let fuel := 2 * m.program.size * (t.size + 1) + 2
    match follow m.program t fuel [.visit m.first start] trail with
    | (some finish, trail) => some ⟨start, finish, trail.slots⟩
    | (none, trail) =>
      match count with
      | 0 => none
      | count + 1 => matchFrom m t (start + 1) count trail

/-- The first match at or behind a place. -/
def find? (m : Matcher) (t : Subject) (start : Nat) : Option Match :=
  if t.size < start then none
  else
    matchFrom m t start (t.size - start)
      ⟨Array.replicate (m.program.size * (t.size + 1)) false,
        Array.replicate (2 * m.pattern.groups + 2) none⟩

/-- Whether some part of a text matches. -/
def isMatch (m : Matcher) (text : String) : Bool := (m.find? text.toList.toArray 0).isSome

/-- The matches from left to right, none inside another and no empty one right behind another.
`last` is the end of the match before, and `fuel` bounds the number of places. -/
def matchesFrom (m : Matcher) (t : Subject) : Nat → Nat → Option Nat → List Match
  | 0, _, _ => []
  | fuel + 1, start, last =>
    match m.find? t start with
    | none => []
    | some found =>
      if found.start == found.finish && some found.finish == last then
        matchesFrom m t fuel (start + 1) last
      else found :: matchesFrom m t fuel found.finish (some found.finish)

def allMatches (m : Matcher) (t : Subject) : List Match :=
  m.matchesFrom t (2 * t.size + 3) 0 none

end Matcher

end Remap.Pattern
