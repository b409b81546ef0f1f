import Remap.Format
import Remap.Json.Depth
import Remap.Json.Reader
import Remap.Json.Writer
import Remap.Query.Reader
import Remap.Query.Writer
import Remap.Xml.Reader
import Remap.Xml.Writer

/-!
# Payloads

A payload is text in one of the wire formats. Reading is bounded in size and in nesting.
-/

namespace Remap

/-- The bounds on a payload. -/
structure Limits where
  maxBytes : Nat
  maxDepth : Nat
deriving DecidableEq, Repr

/-- Eight mebibytes and 64 levels. -/
def Limits.standard : Limits := ⟨8388608, 64⟩

namespace Payload

/-- Why a payload cannot be read. -/
inductive Fault where
  | tooLarge (size limit : Nat)
  | tooDeep (limit : Nat)
  | json (fault : Json.Located)
  | xml (fault : Xml.Fault)
  | query (fault : Query.Fault)
deriving DecidableEq, Repr

def Fault.message : Fault → String
  | tooLarge size limit =>
    "payload is " ++ toString size ++ " bytes, limit is " ++ toString limit ++ " bytes"
  | tooDeep limit => "nesting depth exceeds limit of " ++ toString limit
  | json fault => fault.message
  | xml fault => fault.message
  | query fault => fault.message

/-- A payload that cannot be read, with the byte at fault where it is known. -/
structure ReadError where
  format : Format
  fault : Fault
  offset : Option Nat
deriving DecidableEq, Repr

def ReadError.message (e : ReadError) : String :=
  e.format.name ++ " parse error: " ++ e.fault.message

/-- Why a value has no text in a format. -/
inductive WriteFault where
  | xml (fault : Xml.WriteFault)
  | query (fault : Query.WriteFault)
deriving DecidableEq, Repr

/-- The wording of a value that has no text in a format. -/
def WriteFault.message : WriteFault → String
  | xml fault => "cannot format value as xml: " ++ fault.message
  | query fault => "cannot format value as query: " ++ fault.message

/-- The value of a JSON text; its nesting is checked once it is read. -/
def readJson (limits : Limits) (text : String) : Except ReadError Value :=
  match Json.read text with
  | .error located =>
    .error ⟨.json, .json located, some (located.offset text.toList)⟩
  | .ok value =>
    if Json.withinDepth limits.maxDepth [(value, 1)] then .ok value
    else .error ⟨.json, .tooDeep limits.maxDepth, none⟩

def read (format : Format) (limits : Limits) (text : String) : Except ReadError Value :=
  let size := text.utf8ByteSize
  if limits.maxBytes < size then
    .error ⟨format, .tooLarge size limits.maxBytes, some limits.maxBytes⟩
  else match format with
    | .json => readJson limits text
    | .xml =>
      (Xml.read limits.maxDepth text).mapError fun l => ⟨.xml, .xml l.fault, some l.offset⟩
    | .query =>
      (Query.read limits.maxDepth text).mapError fun l => ⟨.query, .query l.fault, some l.offset⟩

/-- A value as a payload in the given format; query strings have one layout only. -/
def write (format : Format) (pretty : Bool) (v : Value) : Except WriteFault String :=
  match format with
  | .json => .ok (Json.write pretty v)
  | .xml => (Xml.write pretty v).mapError WriteFault.xml
  | .query => (Query.write v).mapError WriteFault.query

end Payload

end Remap
