import Remap.Pattern.Search
import Remap.Plan.Basic
import Remap.Run.Problem
import Remap.Run.Scope

/-!
# Testing predicates

A comparison with something absent is false. Ordered comparison is of numbers with numbers and of
texts with texts; any other is false, and is reported.
-/

namespace Remap.Plan.Predicate

open Run (Scope Problem)

/-- The answer of a test, and what is reported on the way. -/
structure Answer where
  holds : Bool
  problems : List Problem

def say (holds : Bool) : Answer := ⟨holds, []⟩

/-- The order of two values, if they have one; numbers that are not ordered have none. -/
def order? : Value → Value → Option Ordering
  | .number a, .number b =>
    if a < b then some .lt else if a == b then some .eq else if b < a then some .gt else none
  | .string a, .string b => some (compare a b)
  | _, _ => none

/-- Whether the kind of two values has an order. -/
def areOrdered : Value → Value → Bool
  | .number _, .number _ | .string _, .string _ => true
  | _, _ => false

def testOrder (op : String) (wanted : Ordering) (found : Option Value) (value : Value) : Answer :=
  match found with
  | none => say false
  | some found =>
    if areOrdered found value then say (order? found value == some wanted)
    else ⟨false, [.incomparable op found.kind value.kind]⟩

mutual

/-- Whether a predicate holds in a scope. Parts that do not matter any more are not tested. -/
def test (scope : Scope) : Predicate → Answer
  | literal value => say value
  | not p =>
    let answer := test scope p
    { answer with holds := !answer.holds }
  | and ps => testAll scope ps
  | or ps => testAny scope ps
  | «exists» source => say ((scope.resolve? source).any fun v => !v.isNull)
  | equals source value => say ((scope.resolve? source).any fun v => v.same value)
  | «matches» source _ pattern =>
    say <| (scope.resolve? source).any fun v =>
      !v.isNull && v.scalarText?.any pattern.isMatch
  | greaterThan source value => testOrder "greaterThan" .gt (scope.resolve? source) value
  | lessThan source value => testOrder "lessThan" .lt (scope.resolve? source) value

def testAll (scope : Scope) : List Predicate → Answer
  | [] => say true
  | p :: ps =>
    let first := test scope p
    if first.holds then
      let rest := testAll scope ps
      ⟨rest.holds, first.problems ++ rest.problems⟩
    else first

def testAny (scope : Scope) : List Predicate → Answer
  | [] => say false
  | p :: ps =>
    let first := test scope p
    if first.holds then first
    else
      let rest := testAny scope ps
      ⟨rest.holds, first.problems ++ rest.problems⟩

end

end Remap.Plan.Predicate
