import Remap.Path.Basic
import Remap.Value

/-!
# Writing output

A write fills a vacant slot of the output tree, and makes the containers on the way to it. An object
written onto an object is spread over it. What is there already is never replaced: such a write is
a conflict, after which only the containers on the way may be new.
-/

namespace Remap.Run

/-- A slot that refuses a write, and the kind of what is in it. -/
structure Conflict where
  at_ : TargetPath
  existing : Kind
deriving DecidableEq, Repr

/-- The output after a write, and the conflict if there was one. -/
structure Written where
  tree : Value
  conflict : Option Conflict

namespace Output

def key (p : TargetPath) (name : String) : TargetPath := ⟨p.segments ++ [.key name]⟩

mutual

/-- The first slot of one object that refuses an entry of another. The entries of an object come
before those inside them, and later entries before earlier ones. -/
def clash? (p : TargetPath) (existing : List (String × Value)) : Value → Option Conflict
  | .object incoming => (shallowClash? p existing incoming).or (deepClash? p existing incoming)
  | _ => none

/-- The first slot of an object that refuses one of some entries as it stands. -/
def shallowClash? (p : TargetPath) (existing : List (String × Value)) :
    List (String × Value) → Option Conflict
  | [] => none
  | (name, value) :: rest =>
    match Entries.get? name existing, value with
    | some (.object _), .object _ => shallowClash? p existing rest
    | some old, _ =>
      if old.isVacant then shallowClash? p existing rest else some ⟨key p name, old.kind⟩
    | none, _ => shallowClash? p existing rest

/-- The first slot inside an entry of an object that refuses a part of one of some entries. -/
def deepClash? (p : TargetPath) (existing : List (String × Value)) :
    List (String × Value) → Option Conflict
  | [] => none
  | (name, value) :: rest =>
    (deepClash? p existing rest).or <|
      match Entries.get? name existing with
      | some (.object old) => clash? (key p name) old value
      | _ => none

end

mutual

/-- A slot with a value put into it. A vacant slot takes the value, an object takes the entries of
an object, and any other slot stays as it is. -/
def fill (slot : Value) : Value → Value
  | .object incoming =>
    if slot.isVacant then .object incoming
    else match slot with
      | .object existing => .object (spread existing incoming)
      | slot => slot
  | value => if slot.isVacant then value else slot

/-- An object with entries put into it. -/
def spread (existing : List (String × Value)) : List (String × Value) → List (String × Value)
  | [] => existing
  | (name, value) :: rest =>
    let value := match Entries.get? name existing with
      | some old => fill old value
      | none => value
    spread (Entries.put name value existing) rest

end

def place (p : TargetPath) (slot value : Value) : Written :=
  if slot.isVacant then ⟨value, none⟩
  else match slot, value with
    | .object existing, .object _ =>
      match clash? p existing value with
      | some conflict => ⟨slot, some conflict⟩
      | none => ⟨fill slot value, none⟩
    | slot, _ => ⟨slot, some ⟨p, slot.kind⟩⟩

/-- Items made up with nulls so that there is one at an index. -/
def padTo (i : Nat) (items : List Value) : List Value :=
  items ++ List.replicate (i + 1 - items.length) .null

/-- Writes a value at the end of segments below a slot at `walked`. -/
def writeAt (value : Value) : List Segment → List Segment → Value → Written
  | walked, [], slot => place ⟨walked⟩ slot value
  | walked, .key name :: rest, slot =>
    match (if slot.isNull then .object [] else slot) with
    | .object fields =>
      let old := (Entries.get? name fields).getD .null
      let inner := writeAt value (walked ++ [.key name]) rest old
      ⟨.object (Entries.put name inner.tree fields), inner.conflict⟩
    | slot => ⟨slot, some ⟨⟨walked⟩, slot.kind⟩⟩
  | walked, .index i :: rest, slot =>
    match (if slot.isVacant then .array [] else slot) with
    | .array items =>
      let items := padTo i items
      let inner := writeAt value (walked ++ [.index i]) rest ((items[i]?).getD .null)
      ⟨.array (items.set i inner.tree), inner.conflict⟩
    | slot => ⟨slot, some ⟨⟨walked⟩, slot.kind⟩⟩
  | walked, .wildcard :: _, slot => ⟨slot, some ⟨⟨walked⟩, slot.kind⟩⟩

def write (tree : Value) (target : TargetPath) (value : Value) : Written :=
  writeAt value [] target.segments tree

end Output

end Remap.Run
