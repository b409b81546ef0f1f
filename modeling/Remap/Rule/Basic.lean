import Remap.Format
import Remap.Value

/-!
# Rules documents

A rules document maps one payload to another. Its rules form a tree, and paths stand in it as
they are written: they are read when the rules are checked.
-/

namespace Remap

/-- What a merge does where its branches overlap. -/
inductive MergePolicy where
  | lastWins
  | firstWins
  | error
  | appendArray
deriving DecidableEq, Repr

namespace MergePolicy

def all : List MergePolicy := [lastWins, firstWins, error, appendArray]

def standard : MergePolicy := lastWins

def name : MergePolicy → String
  | lastWins => "lastWins"
  | firstWins => "firstWins"
  | error => "error"
  | appendArray => "appendArray"

def ofName? (name : String) : Option MergePolicy := all.find? fun p => p.name == name

end MergePolicy

/-- A condition on the current scope. -/
inductive Condition where
  | equals (source : String) (value : Value)
  | exists (source : String)
  | matches (source pattern : String)
  | and (conditions : List Condition)
  | or (conditions : List Condition)
  | not (condition : Condition)
  | literal (value : Bool)
  | greaterThan (source : String) (value : Value)
  | lessThan (source : String) (value : Value)
deriving Inhabited

namespace Condition

/-- The name of the operator of a condition. -/
def op : Condition → String
  | equals .. => "equals"
  | «exists» .. => "exists"
  | «matches» .. => "matches"
  | and .. => "and"
  | or .. => "or"
  | not .. => "not"
  | literal .. => "literal"
  | greaterThan .. => "greaterThan"
  | lessThan .. => "lessThan"

mutual

/-- The paths that a condition reads, in order of evaluation. -/
def sources : Condition → List String
  | equals source _ | «exists» source | «matches» source _ | greaterThan source _
  | lessThan source _ => [source]
  | and conditions | or conditions => listSources conditions
  | not condition => sources condition
  | literal _ => []

def listSources : List Condition → List String
  | [] => []
  | c :: cs => sources c ++ listSources cs

end

/-- The truth of a conjunction of which some parts are known. -/
def allKnown (parts : List (Option Bool)) : Option Bool :=
  if parts.contains (some false) then some false
  else if parts.all Option.isSome then some true
  else none

/-- The truth of a disjunction of which some parts are known. -/
def anyKnown (parts : List (Option Bool)) : Option Bool :=
  if parts.contains (some true) then some true
  else if parts.all Option.isSome then some false
  else none

mutual

/-- The truth of a condition, where it follows from its literals alone. -/
def constant? : Condition → Option Bool
  | literal value => some value
  | not condition => (constant? condition).map (!·)
  | and conditions => allKnown (constants conditions)
  | or conditions => anyKnown (constants conditions)
  | _ => none

/-- The truths of a list of conditions, as far as they are known. -/
def constants : List Condition → List (Option Bool)
  | [] => []
  | c :: cs => constant? c :: constants cs

end

end Condition

namespace Rule

/-- Where a field takes its value from. -/
inductive Source where
  | path (text : String)
  | constant (value : Value)

/-- A transform as it is called: a name and arguments. -/
structure Call where
  name : String
  args : List Value

/-- A rule that writes one field. -/
structure Field where
  source : Source
  transforms : List Call
  target : String
  optional : Bool

/-- A tree of rules. -/
inductive Node where
  | field (f : Field)
  | condition (test : Condition) (yes : Node) (no : Option Node)
  | merge (inputs : List Node) (policy : MergePolicy) (target : String)
  | split (source : String) (item : Node) (target : String)
  | fragment (name : String)
  /-- Applies rules one after the other. -/
  | sequence (steps : List Node)

instance : Inhabited Node := ⟨.sequence []⟩

namespace Node

def kind : Node → String
  | field _ => "field"
  | condition .. => "condition"
  | merge .. => "merge"
  | split .. => "split"
  | fragment _ => "fragment"
  | sequence _ => "sequence"

end Node

/-- A set of named rules that documents share. -/
structure Library where
  includes : List String
  fragments : Entries Node

/-- A rules document. -/
structure Document where
  schemaVersion : String
  inputFormat : Format
  outputFormat : Format
  includes : List String
  fragments : Entries Node
  root : Node

end Rule

end Remap
