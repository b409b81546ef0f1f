import Remap.Query.Form
import Remap.Query.Tree
import Remap.Text.Basic

/-!
# Reading query strings

A query string is a list of pairs between ampersands, with an optional question mark in front.
Every leaf of the value is a string.
-/

namespace Remap.Query

/-- Why a text is no query string. -/
inductive Fault where
  | key (fault : KeyFault)
  | tooDeep (limit : Nat)
  | conflict (name : String) (fault : Conflict)
deriving DecidableEq, Repr

def Fault.message : Fault → String
  | key fault => fault.message
  | tooDeep limit => "nesting depth exceeds limit of " ++ toString limit
  | conflict name fault => "conflicting shapes for '" ++ name ++ "': " ++ fault.message

/-- A fault with the byte at which its pair starts. -/
structure Located where
  fault : Fault
  offset : Nat
deriving DecidableEq, Repr

/-- The pieces of a text between the occurrences of a character. -/
def splitAt (mark : Char) : List Char → List (List Char)
  | [] => [[]]
  | c :: rest =>
    if c = mark then [] :: splitAt mark rest
    else match splitAt mark rest with
      | piece :: pieces => (c :: piece) :: pieces
      | [] => [[c]]

/-- Puts a pair into the tree; its key has at most `limit` segments. -/
def addPair (limit : Nat) (tree : Tree) (name text : String) : Except Fault Tree := do
  let segments ← (readKey name).mapError Fault.key
  if limit < segments.length then .error (.tooDeep limit)
  else (tree.insert text segments).mapError (Fault.conflict name)

/-- Puts the pairs of the pieces into the tree. The first piece starts at `offset`, and an empty
piece holds no pair. -/
def addPieces (limit : Nat) : Nat → Tree → List (List Char) → Except Located Tree
  | _, tree, [] => .ok tree
  | offset, tree, piece :: rest =>
    let next := offset + Text.byteLength piece + 1
    if piece.isEmpty then addPieces limit next tree rest
    else
      let (name, text) := decodePair piece
      match addPair limit tree name text with
      | .ok tree => addPieces limit next tree rest
      | .error fault => .error ⟨fault, offset⟩

/-- The value of a query string whose keys have at most `limit` segments. -/
def read (limit : Nat) (text : String) : Except Located Value := do
  let (offset, body) := match text.toList with
    | '?' :: rest => (1, rest)
    | chars => (0, chars)
  let tree ← addPieces limit offset (.object []) (splitAt '&' body)
  .ok tree.value

end Remap.Query
