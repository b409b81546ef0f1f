import Remap.Decimal.Literal
import Remap.Decimal.Layout
import Remap.Text.Ranges

/-!
# Places in rule trees

A node is located by the tree it stands in and the steps that lead down to it, as in
`root.steps[1].item.then`. While a split runs, its step also carries the index of the item, which
belongs to the run and not to the tree.
-/

namespace Remap.Rule

/-- One step down a rule tree. -/
inductive Step where
  | step (i : Nat)
  | input (i : Nat)
  | yes
  | no
  | item
  | itemAt (i : Nat)
deriving DecidableEq, Repr

namespace Step

def indexText (i : Nat) : String := "[" ++ toString i ++ "]"

def text : Step → String
  | step i => ".steps" ++ indexText i
  | input i => ".inputs" ++ indexText i
  | yes => ".then"
  | no => ".else"
  | item => ".item"
  | itemAt i => ".item" ++ indexText i

/-- The step of the tree that a step of a run follows. -/
def static : Step → Step
  | itemAt _ => item
  | s => s

end Step

/-- Where a node stands: the name of its tree and the steps from the top of it. -/
structure Place where
  tree : String
  steps : List Step
deriving DecidableEq, Repr

namespace Place

def top (tree : String) : Place := ⟨tree, []⟩

/-- The top of a document's own tree. -/
def root : Place := top "root"

def down (p : Place) (s : Step) : Place := ⟨p.tree, p.steps ++ [s]⟩

def text (p : Place) : String := p.steps.foldl (fun text s => text ++ s.text) p.tree

/-- The place in the tree that a place of a run belongs to. -/
def static (p : Place) : Place := ⟨p.tree, p.steps.map Step.static⟩

/-- The number that an index in brackets stands for; a plus sign in front is allowed, and an index
fits 64 bits. -/
def readIndex? (digits : List Char) : Option Nat :=
  let digits := match digits with
    | '+' :: rest => rest
    | digits => digits
  if digits.isEmpty || !digits.all Decimal.isDigit then none
  else
    let n := Decimal.ofDigits digits
    if n < UInt64.size then some n else none

/-- The step of the given name; branches and items pay no heed to an index. -/
def readStep? (name : List Char) (index : Option Nat) : Option Step :=
  if name = "steps".toList then index.map Step.step
  else if name = "inputs".toList then index.map Step.input
  else if name = "then".toList then some .yes
  else if name = "else".toList then some .no
  else if name = "item".toList then some .item
  else none

/-- The steps that a text denotes, in which `fuel` bounds their number. -/
def readSteps? : Nat → List Char → Option (List Step)
  | _, [] => some []
  | 0, _ => none
  | fuel + 1, '.' :: rest =>
    let (name, rest) := rest.span fun c => c != '.' && c != '['
    match rest with
    | '[' :: inner =>
      match inner.span (· != ']') with
      | (digits, _ :: rest) => do
        let index ← readIndex? digits
        let step ← readStep? name (some index)
        let steps ← readSteps? fuel rest
        some (step :: steps)
      | (_, []) => none
    | rest => do
      let step ← readStep? name none
      let steps ← readSteps? fuel rest
      some (step :: steps)
  | _, _ => none

/-- The place in a document's own tree that a text denotes. -/
def parse? (text : String) : Option Place :=
  match text.toList with
  | 'r' :: 'o' :: 'o' :: 't' :: rest =>
    (readSteps? rest.length rest).map fun steps => ⟨"root", steps⟩
  | _ => none

/-- A text from which the indices of items are dropped, in which `fuel` bounds its length. -/
def dropItemIndices : Nat → List Char → List Char
  | 0, text => text
  | _, [] => []
  | fuel + 1, '.' :: 'i' :: 't' :: 'e' :: 'm' :: '[' :: rest =>
    ".item".toList ++
      match rest.span (· != ']') with
      | (_, _ :: after) => dropItemIndices fuel after
      | (all, []) => all
  | fuel + 1, c :: rest => c :: dropItemIndices fuel rest

/-- The text of the place in the tree that the text of a place of a run belongs to. -/
def staticText (text : String) : String :=
  let chars := text.toList
  String.ofList (dropItemIndices chars.length chars)

end Place

end Remap.Rule
