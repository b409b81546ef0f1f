import Remap.Value

/-!
# Writing JSON

Values are written compactly or indented by two spaces. The text of a number is chosen by the
caller: payloads and rules documents spell numbers differently.
-/

namespace Remap.Json

/-- How a JSON text is set out. -/
structure Style where
  /-- Whether entries stand on lines of their own. -/
  pretty : Bool
  number : Float → String

def hexDigit (n : Nat) : Char :=
  if n < 10 then Char.ofNat (48 + n) else Char.ofNat (87 + n)

def escape (c : Char) : List Char :=
  if c = '"' then ['\\', '"']
  else if c = '\\' then ['\\', '\\']
  else if c = '\n' then ['\\', 'n']
  else if c = '\r' then ['\\', 'r']
  else if c = '\t' then ['\\', 't']
  else if c = '\x08' then ['\\', 'b']
  else if c = '\x0c' then ['\\', 'f']
  else if c.toNat < 32 then
    ['\\', 'u', '0', '0', hexDigit (c.toNat / 16), hexDigit (c.toNat % 16)]
  else [c]

def quote (s : String) : List Char :=
  '"' :: s.toList.flatMap escape ++ ['"']

/-- The line break before an entry at the given depth, in the indented style. -/
def Style.newline (style : Style) (depth : Nat) : List Char :=
  if style.pretty then '\n' :: List.replicate (2 * depth) ' ' else []

/-- What stands between a key and its value. -/
def Style.colon (style : Style) : List Char :=
  if style.pretty then [':', ' '] else [':']

mutual

/-- The text of a value that stands at the given depth. -/
def writeAt (style : Style) (depth : Nat) : Value → List Char
  | .null => "null".toList
  | .bool b => (if b then "true" else "false").toList
  | .number n => (style.number n).toList
  | .string s => quote s
  | .array [] => ['[', ']']
  | .array (x :: xs) =>
    '[' :: style.newline (depth + 1) ++ writeAt style (depth + 1) x
      ++ writeItems style (depth + 1) xs ++ style.newline depth ++ [']']
  | .object [] => ['\x7b', '\x7d']
  | .object ((k, x) :: xs) =>
    '\x7b' :: style.newline (depth + 1) ++ quote k ++ style.colon
      ++ writeAt style (depth + 1) x ++ writeFields style (depth + 1) xs
      ++ style.newline depth ++ ['\x7d']

/-- The items of an array after the first. -/
def writeItems (style : Style) (depth : Nat) : List Value → List Char
  | [] => []
  | x :: xs =>
    ',' :: style.newline depth ++ writeAt style depth x ++ writeItems style depth xs

/-- The entries of an object after the first. -/
def writeFields (style : Style) (depth : Nat) : List (String × Value) → List Char
  | [] => []
  | (k, x) :: xs =>
    ',' :: style.newline depth ++ quote k ++ style.colon ++ writeAt style depth x
      ++ writeFields style depth xs

end

/-- A payload as JSON text; numbers that are not finite become `null`. -/
def write (pretty : Bool) (v : Value) : String :=
  String.ofList (writeAt ⟨pretty, Decimal.payloadText⟩ 0 v)

/-- A rules document or a report as JSON text. -/
def writeDocument (pretty : Bool) (v : Value) : String :=
  String.ofList (writeAt ⟨pretty, Decimal.documentText⟩ 0 v)

end Remap.Json
