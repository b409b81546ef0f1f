import Remap.Decimal.Shortest
import Remap.Json.Writer
import Remap.Path.Basic
import Remap.Pattern.Replacement
import Remap.Text.CaseMap
import Remap.Transform.Operation

/-!
# Applying operations

An operation checks the kind of its input first, and may still fail on the value.
-/

namespace Remap.Operation

/-- Why an operation has no result. -/
inductive Failure where
  | kind (t : Transform) (found : Kind)
  | notNumber (text : String)
  | notBool (text : String)
  | container
  | joinContainer
  | placeholder (path : String)
  | timestamp (text : String) (fault : Date.ReadFault)
  | date (text : String) (fault : Date.ReadFault)
  | dateOutput (fault : Date.WriteFault)
deriving DecidableEq, Repr

namespace Failure

def transform : Failure → Transform
  | kind t _ => t
  | notNumber _ => .toNumber
  | notBool _ => .toBool
  | container => .toText
  | joinContainer => .join
  | placeholder _ => .template
  | timestamp .. | date .. | dateOutput _ => .dateFormat

/-- What is the matter, apart from the transform. -/
def detail : Failure → String
  | kind _ found => "does not accept " ++ found.name ++ " input"
  | notNumber text => "'" ++ text ++ "' is not a number"
  | notBool text => "'" ++ text ++ "' is not a boolean"
  | container => "containers have no string form"
  | joinContainer => "can only join scalar items"
  | placeholder path => "placeholder '\x7b" ++ path ++ "\x7d' resolves to nothing"
  | timestamp text fault => "'" ++ text ++ "' is not an RFC 3339 timestamp: " ++ fault.message
  | date text fault => "'" ++ text ++ "' does not match the input date format: " ++ fault.message
  | dateOutput fault => "cannot format date: " ++ fault.message

/-- Whether a failure is about the kind of the input and not its value. -/
def isKind : Failure → Bool
  | kind .. => true
  | _ => false

def message (f : Failure) : String :=
  "'" ++ f.transform.name ++ "'" ++ (if f.isKind then " " else ": ") ++ f.detail

end Failure

/-- A value in messages: the text of a scalar, or the kind of a container. -/
def shownText (v : Value) : String := v.scalarText?.getD v.kind.name

def numberOf? : Value → Option Float
  | .number n => some n
  | .bool b => some (if b then 1 else 0)
  | .string s => Decimal.readNumber? (Text.trim s)
  | _ => none

/-- The truth that a value means. -/
def boolOf? : Value → Option Bool
  | .bool b => some b
  | .number n => some (n != 0)
  | .string s =>
    match Text.lowerAscii (Text.trim s) with
    | "true" | "1" | "yes" => some true
    | "false" | "0" | "no" => some false
    | _ => none
  | _ => none

/-- A value in a template: the text of a scalar, or a container as JSON. -/
def placeholderText (v : Value) : String := v.scalarText?.getD (Json.write false v)

/-- The text of a template for a value. -/
def render (lookup : SourcePath → Option Value) (v : Value) :
    List Template.Part → Except Failure String
  | [] => .ok ""
  | part :: rest => do
    let text ← match part with
      | .literal text => .ok text
      | .value => .ok (placeholderText v)
      | .path p =>
        match lookup p with
        | some found => .ok (placeholderText found)
        | none => .error (.placeholder p.text)
    let more ← render lookup v rest
    .ok (text ++ more)

def readDate (form : Date.Form) (text : String) : Except Failure Date.Moment :=
  (form.read text).mapError <| match form with
    | .timestamp => Failure.timestamp text
    | .layout _ => Failure.date text

def reformatDate (source target : Date.Form) (text : String) : Except Failure String := do
  let moment ← readDate source text
  (target.write moment).mapError Failure.dateOutput

/-- The result of an operation. `lookup` finds what the placeholders of templates stand for. -/
def apply (lookup : SourcePath → Option Value) (op : Operation) (input : Value) :
    Except Failure Value :=
  if !op.transform.acceptsKind input.kind then .error (.kind op.transform input.kind)
  else match op, input with
    | trim, .string s => .ok (.string (Text.trim s))
    | uppercase, .string s => .ok (.string (Text.toUpper s))
    | lowercase, .string s => .ok (.string (Text.toLower s))
    | toNumber, v =>
      match numberOf? v with
      | some n => .ok (.number n)
      | none => .error (.notNumber (shownText v))
    | toText, v =>
      match v.scalarText? with
      | some s => .ok (.string s)
      | none => .error .container
    | toBool, v =>
      match boolOf? v with
      | some b => .ok (.bool b)
      | none => .error (.notBool (shownText v))
    | round digits, .number n => .ok (.number (Decimal.round n digits))
    | dateFormat source target, .string s => (reformatDate source target s).map Value.string
    | template parts, v => (render lookup v parts).map Value.string
    | default fallback, v => .ok (if v.isNull then fallback else v)
    | split separator, .string s =>
      .ok (.array (if s.isEmpty then [] else (Text.splitAll separator s).map Value.string))
    | join separator, .array items =>
      match items.mapM Value.scalarText? with
      | some texts => .ok (.string (separator.intercalate texts))
      | none => .error .joinContainer
    | replace pattern replacement, .string s => .ok (.string (pattern.replaceAll replacement s))
    | op, v => .error (.kind op.transform v.kind)

end Remap.Operation
