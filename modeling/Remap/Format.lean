import Remap.Text.Basic

/-!
# Wire formats

The formats a payload can be read from and written to, with their names and file extensions.
-/

namespace Remap

/-- A wire format. -/
inductive Format where
  | json
  | xml
  | query
deriving DecidableEq, Repr

namespace Format

def name : Format → String
  | json => "json"
  | xml => "xml"
  | query => "query"

def ofName? : String → Option Format
  | "json" => some json
  | "xml" => some xml
  | "query" => some query
  | _ => none

/-- A text that names no format, trimmed and in lower case. -/
structure Unknown where
  name : String
deriving DecidableEq, Repr

def Unknown.message (u : Unknown) : String :=
  "unknown format '" ++ u.name ++ "' (expected json, xml or query)"

/-- The format that a text names, white space at its ends and the case of letters aside. -/
def ofText (text : String) : Except Unknown Format :=
  let name := Text.lowerAscii (Text.trim text)
  match ofName? name with
  | some format => .ok format
  | none => .error ⟨name⟩

/-- The parts of a file path between slashes; empty parts and single dots name nothing. -/
def pathParts (path : String) : List String :=
  (path.splitOn "/").filter fun part => part != "" && part != "."

/-- What follows the last dot of a file name; a dot in front starts no extension. -/
def extension? (path : String) : Option String :=
  match (pathParts path).getLast? with
  | none | some ".." => none
  | some file =>
    let (tail, head) := file.toList.reverse.span (· != '.')
    match head with
    | _ :: _ :: _ => some (String.ofList tail.reverse)
    | _ => none

/-- The format that the extension of a file path stands for. -/
def ofPath? (path : String) : Option Format :=
  match (extension? path).map Text.lowerAscii with
  | some "json" => some json
  | some "xml" => some xml
  | some "txt" => some query
  | _ => none

end Format

end Remap
