import Remap.Query.Form
import Remap.Value

/-!
# Writing query strings

The leaves of an object become pairs whose names lead to them in bracket notation. Empty
containers have no pairs and are left out.
-/

namespace Remap.Query

/-- Why a value has no query form. -/
inductive WriteFault where
  | notObject (found : Kind)
  | badKey (key : String)
deriving DecidableEq, Repr

def WriteFault.message : WriteFault → String
  | notObject found => "root must be an object, found " ++ found.name
  | badKey key => "key '" ++ key ++ "' cannot be expressed in bracket notation"

/-- Whether a key can stand in bracket notation. -/
def isWritableKey (key : String) : Bool :=
  let chars := key.toList
  !chars.isEmpty && !chars.contains '[' && !chars.contains ']'

/-- The name of an entry of what `outer` names. -/
def nested (outer key : String) : String := outer ++ "[" ++ key ++ "]"

mutual

def pairs (name : String) : Value → Except WriteFault (List (String × String))
  | .object fields => fieldPairs (some name) fields
  | .array items => itemPairs name 0 items
  | scalar => .ok [(name, (scalar.scalarText?).getD "")]

/-- The pairs of the entries of an object, which has no name at the root. -/
def fieldPairs (outer : Option String) : List (String × Value) →
    Except WriteFault (List (String × String))
  | [] => .ok []
  | (key, item) :: rest =>
    if isWritableKey key then do
      let name := match outer with
        | some outer => nested outer key
        | none => key
      let first ← pairs name item
      let others ← fieldPairs outer rest
      .ok (first ++ others)
    else .error (.badKey key)

def itemPairs (name : String) (index : Nat) : List Value →
    Except WriteFault (List (String × String))
  | [] => .ok []
  | item :: rest => do
    let first ← pairs (nested name (toString index)) item
    let others ← itemPairs name (index + 1) rest
    .ok (first ++ others)

end

def joinPairs (ps : List (String × String)) : String :=
  String.ofList (List.intercalate ['&'] (ps.map encodePair))

def write (v : Value) : Except WriteFault String :=
  match v with
  | .object fields => (fieldPairs none fields).map joinPairs
  | v => .error (.notObject v.kind)

end Remap.Query
