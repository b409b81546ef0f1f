import Remap.Value
import Remap.Text.Basic

/-!
# The transform catalog

Every transform has a name, a number of arguments, the kinds of value it accepts and, where it is
fixed, the kind of its result.
-/

namespace Remap

/-- A transform of the catalog. -/
inductive Transform where
  | trim
  | uppercase
  | lowercase
  | toNumber
  | toText
  | toBool
  | round
  | dateFormat
  | template
  | default
  | split
  | join
  | replace
deriving DecidableEq, Repr

namespace Transform

/-- The transforms in the order of the catalog. -/
def all : List Transform :=
  [trim, uppercase, lowercase, toNumber, toText, toBool, round, dateFormat, template, default,
    split, join, replace]

def name : Transform → String
  | trim => "trim"
  | uppercase => "uppercase"
  | lowercase => "lowercase"
  | toNumber => "toNumber"
  | toText => "toString"
  | toBool => "toBool"
  | round => "round"
  | dateFormat => "dateFormat"
  | template => "template"
  | default => "default"
  | split => "split"
  | join => "join"
  | replace => "replace"

def ofName? (name : String) : Option Transform := all.find? fun t => t.name == name

/-- The transform that a name means, white space at its ends and the case of letters aside. -/
def ofLooseName? (name : String) : Option Transform :=
  let wanted := Text.lowerAscii (Text.trim name)
  all.find? fun t => Text.lowerAscii t.name == wanted

/-- How many arguments a transform takes. -/
def arity : Transform → Nat
  | round | template | default | split | join => 1
  | dateFormat | replace => 2
  | _ => 0

/-- The kinds that a transform accepts; none stands for any kind. -/
def accepts : Transform → Option (List Kind)
  | trim | uppercase | lowercase | dateFormat | split | replace => some [.string]
  | toNumber | toBool => some [.string, .number, .bool]
  | toText => some [.null, .bool, .number, .string]
  | round => some [.number]
  | join => some [.array]
  | template | default => none

def acceptsKind (t : Transform) (kind : Kind) : Bool :=
  match t.accepts with
  | some kinds => kinds.contains kind
  | none => true

/-- The kind of the result; none where it depends on the input. -/
def output : Transform → Option Kind
  | toNumber | round => some .number
  | toBool => some .bool
  | split => some .array
  | default => none
  | _ => some .string

end Transform

end Remap
