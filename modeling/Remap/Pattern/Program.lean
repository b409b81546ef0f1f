import Remap.Pattern.Basic

/-!
# Programs of patterns

A pattern becomes a program of instructions that name their successors. Where an instruction has
two, the first is preferred.
-/

namespace Remap.Pattern

/-- An instruction. -/
inductive Instruction where
  | done
  | take (s : CharSet) (next : Nat)
  | look (l : Look) (next : Nat)
  | split (first second : Nat)
  | save (slot next : Nat)
deriving Repr, Inhabited

/-- The instructions so far; an instruction is named by its position. -/
abbrev Program := Array Instruction

namespace Program

def add (i : Instruction) (p : Program) : Nat × Program := (p.size, p.push i)

/-- Two ways to go on, of which the first leads into a repetition. -/
def fork (greedy : Bool) (inside outside : Nat) : Instruction :=
  if greedy then .split inside outside else .split outside inside

/-- Any number of copies. `emit` adds one copy in front of an instruction. A copy that may be empty
is entered apart from being repeated, so that an empty copy ends the repetition. -/
def star (greedy empty : Bool) (emit : Nat → Program → Nat × Program) (next : Nat)
    (p : Program) : Nat × Program :=
  let (loop, p) := add .done p
  let (start, p) := emit loop p
  let p := p.set! loop (fork greedy start next)
  if empty then add (fork greedy start next) p else (loop, p)

def plus (greedy : Bool) (emit : Nat → Program → Nat × Program) (next : Nat) (p : Program) :
    Nat × Program :=
  let (loop, p) := add .done p
  let (start, p) := emit loop p
  (start, p.set! loop (fork greedy start next))

/-- A number of copies one after the other. -/
def copies (count : Nat) (emit : Nat → Program → Nat × Program) (next : Nat) (p : Program) :
    Nat × Program :=
  match count with
  | 0 => (next, p)
  | count + 1 =>
    let (next, p) := emit next p
    copies count emit next p

/-- Up to a number of copies; each may lead straight to `exit`. -/
def optional (greedy : Bool) (count : Nat) (emit : Nat → Program → Nat × Program) (exit : Nat)
    (next : Nat) (p : Program) : Nat × Program :=
  match count with
  | 0 => (next, p)
  | count + 1 =>
    let (start, p) := emit next p
    let (next, p) := add (fork greedy start exit) p
    optional greedy count emit exit next p

mutual

/-- Adds the instructions of a pattern in front of `next`, and gives the name of the first. -/
def emit : Node → Nat → Program → Nat × Program
  | .empty, next, p => (next, p)
  | .set s, next, p => add (.take s next) p
  | .look l, next, p => add (.look l next) p
  | .group none inner, next, p => emit inner next p
  | .group (some number) inner, next, p =>
    let (finish, p) := add (.save (2 * number + 1) next) p
    let (start, p) := emit inner finish p
    add (.save (2 * number) start) p
  | .repeated min none greedy inner, next, p =>
    match min with
    | 0 => star greedy inner.matchesEmpty (fun next p => emit inner next p) next p
    | more + 1 =>
      let (last, p) := plus greedy (fun next p => emit inner next p) next p
      copies more (fun next p => emit inner next p) last p
  | .repeated min (some max) greedy inner, next, p =>
    let (first, p) :=
      optional greedy (max - min) (fun next p => emit inner next p) next next p
    copies min (fun next p => emit inner next p) first p
  | .sequence parts, next, p => emitAll parts next p
  | .choice parts, next, p => emitAny parts next p

/-- Adds the instructions of patterns one after the other. -/
def emitAll : List Node → Nat → Program → Nat × Program
  | [], next, p => (next, p)
  | n :: ns, next, p =>
    let (rest, p) := emitAll ns next p
    emit n rest p

/-- Adds the instructions of patterns side by side. -/
def emitAny : List Node → Nat → Program → Nat × Program
  | [], next, p => (next, p)
  | [n], next, p => emit n next p
  | n :: ns, next, p =>
    let (rest, p) := emitAny ns next p
    let (start, p) := emit n next p
    add (.split start rest) p

end

/-- The program of a pattern, with the name of its first instruction. -/
def ofNode (n : Node) : Nat × Program :=
  let (finish, p) := add .done #[]
  emit n finish p

end Program

end Remap.Pattern
