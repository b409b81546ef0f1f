import Remap.Date.Timestamp
import Remap.Pattern.Search
import Remap.Transform.Basic
import Remap.Transform.Template

/-!
# Operations

A transform with arguments that it takes is an operation, ready to run.
-/

namespace Remap

/-- A transform with its arguments. -/
inductive Operation where
  | trim
  | uppercase
  | lowercase
  | toNumber
  | toText
  | toBool
  | round (digits : Nat)
  | dateFormat (source target : Date.Form)
  | template (parts : List Template.Part)
  | default (fallback : Value)
  | split (separator : String)
  | join (separator : String)
  | replace (pattern : Pattern.Matcher) (replacement : String)

namespace Operation

def transform : Operation → Transform
  | trim => .trim
  | uppercase => .uppercase
  | lowercase => .lowercase
  | toNumber => .toNumber
  | toText => .toText
  | toBool => .toBool
  | round _ => .round
  | dateFormat .. => .dateFormat
  | template _ => .template
  | default _ => .default
  | split _ => .split
  | join _ => .join
  | replace .. => .replace

/-- Whether an operation replaces absent values. -/
def isDefault : Operation → Bool
  | default _ => true
  | _ => false

/-- The paths that an operation reads besides its input. -/
def paths : Operation → List SourcePath
  | template parts => Template.paths parts
  | _ => []

/-- The greatest number of places to round to. -/
def maxRoundDigits : Nat := 15

/-- Why a transform does not take some arguments. -/
inductive Fault where
  | roundDigits
  | notText (t : Transform) (position : Nat)
  | dateLayout (text : String) (fault : Date.Layout.Fault)
  | template (fault : Template.Fault)
  | emptySeparator
  | pattern (text : String) (fault : Pattern.Fault)
deriving DecidableEq, Repr

def Fault.message : Fault → String
  | roundDigits =>
    "'round' takes an integer digit count between 0 and " ++ toString maxRoundDigits
  | notText t position =>
    "argument " ++ toString position ++ " of '" ++ t.name ++ "' must be a string"
  | dateLayout text fault => "invalid date format '" ++ text ++ "': " ++ fault.message
  | template fault => fault.message
  | emptySeparator => "'split' separator cannot be empty"
  | pattern text fault => "invalid regex '" ++ text ++ "': " ++ fault.message

/-- The text argument at a position, counted from one. -/
def textArg (t : Transform) (args : List Value) (position : Nat) : Except Fault String :=
  match args[position - 1]? with
  | some (.string s) => .ok s
  | _ => .error (.notText t position)

/-- The number of places that an argument gives. -/
def roundDigits? : Value → Option Nat
  | .number n => do
    let i ← Decimal.exactInteger? n
    if 0 ≤ i ∧ i ≤ maxRoundDigits then some i.toNat else none
  | _ => none

def dateForm (text : String) : Except Fault Date.Form :=
  (Date.Form.parse text).mapError (Fault.dateLayout text)

/-- The operation of a transform with some arguments. Arguments that are not needed are ignored. -/
def build (t : Transform) (args : List Value) : Except Fault Operation :=
  match t with
  | .trim => .ok .trim
  | .uppercase => .ok .uppercase
  | .lowercase => .ok .lowercase
  | .toNumber => .ok .toNumber
  | .toText => .ok .toText
  | .toBool => .ok .toBool
  | .round =>
    match args.head?.bind roundDigits? with
    | some digits => .ok (.round digits)
    | none => .error .roundDigits
  | .dateFormat => do
    let source ← textArg t args 1
    let source ← dateForm source
    let target ← textArg t args 2
    let target ← dateForm target
    .ok (.dateFormat source target)
  | .template => do
    let text ← textArg t args 1
    let parts ← (Template.parse text).mapError Fault.template
    .ok (.template parts)
  | .default => .ok (.default (args.head?.getD .null))
  | .split => do
    let separator ← textArg t args 1
    if separator.isEmpty then .error .emptySeparator else .ok (.split separator)
  | .join => do
    let separator ← textArg t args 1
    .ok (.join separator)
  | .replace => do
    let text ← textArg t args 1
    let pattern ← (Pattern.parse text).mapError (Fault.pattern text)
    let replacement ← textArg t args 2
    .ok (.replace (.ofPattern pattern) replacement)

end Operation

end Remap
