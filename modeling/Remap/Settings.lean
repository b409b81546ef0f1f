import Remap.Payload
import Remap.Toml.Reader

/-!
# Settings

Settings that all commands share stand in a file. Every setting has a standard value, which holds
unless the file says otherwise; a file may say nothing twice and nothing unknown.
-/

namespace Remap

/-- What a settings file can set. -/
structure Settings where
  limits : Limits
  /-- Whether converted payloads are set out on several lines. -/
  pretty : Bool
  /-- How many runs a benchmark takes. -/
  iterations : Nat

namespace Settings

/-- The settings that hold without a file. -/
def standard : Settings := ⟨Limits.standard, false, 100⟩

/-- A single setting. -/
inductive Name where
  | maxBytes
  | maxDepth
  | pretty
  | iterations
deriving DecidableEq, Repr

/-- The settings of a section by their keys, in the order in which a list gives them. -/
def section? : String → Option (Entries Name)
  | "limits" => some [("max_bytes", .maxBytes), ("max_depth", .maxDepth)]
  | "output" => some [("pretty", .pretty)]
  | "benchmark" => some [("iterations", .iterations)]
  | _ => none

/-- What is wrong with a settings file. -/
inductive Cause where
  | malformed
  | unknown (key : String)
  | repeated (key : String)
  | badValue (key : String)
deriving DecidableEq, Repr

def Cause.message : Cause → String
  | malformed => "malformed statement"
  | unknown key => "unknown key '" ++ key ++ "'"
  | repeated key => "'" ++ key ++ "' is set twice"
  | badValue key => "bad value for '" ++ key ++ "'"

/-- A settings file that cannot be used, with the line at fault. -/
structure Fault where
  line : Nat
  cause : Cause
deriving DecidableEq, Repr

def Fault.message (f : Fault) : String :=
  "TOML parse error at line " ++ toString f.line ++ ": " ++ f.cause.message

/-- Sets one setting, if the value is of its kind. -/
def assign? (s : Settings) : Name → Toml.Item → Option Settings
  | .maxBytes, .whole (.ofNat n) => some { s with limits := ⟨n, s.limits.maxDepth⟩ }
  | .maxDepth, .whole (.ofNat n) => some { s with limits := ⟨s.limits.maxBytes, n⟩ }
  | .pretty, .truth b => some { s with pretty := b }
  | .iterations, .whole (.ofNat n) => some { s with iterations := n }
  | _, _ => none

/-- Settings as far as a file is read. -/
structure Draft where
  settings : Settings
  /-- The section that the last header opened. -/
  current : Option (Entries Name)
  /-- The sections that are set in full or by a header. -/
  closed : List String
  /-- The sections that are set key by key without a header. -/
  started : List String
  assigned : List Name

def Draft.first : Draft := ⟨standard, none, [], [], []⟩

def Draft.set (d : Draft) (key : String) (name : Name) (item : Toml.Item) : Except Cause Draft :=
  if d.assigned.contains name then .error (.repeated key)
  else match d.settings.assign? name item with
    | some settings => .ok { d with settings, assigned := name :: d.assigned }
    | none => .error (.badValue key)

/-- Sets the setting that has the given key in a section. -/
def Draft.setKey (d : Draft) (keys : Entries Name) (key : String) (item : Toml.Item) :
    Except Cause Draft :=
  match keys.get? key with
  | some name => d.set key name item
  | none => .error (.unknown key)

/-- Sets what a table or a list gives for a section. A list gives values in the order of the keys,
and has no use for further ones. -/
def Draft.setSection (d : Draft) (title : String) (keys : Entries Name) :
    Toml.Item → Except Cause Draft
  | .table entries => entries.foldlM (fun d (key, item) => d.setKey keys key item) d
  | .list items => (keys.zip items).foldlM (fun d ((key, name), item) => d.set key name item) d
  | _ => .error (.badValue title)

/-- Checks that nothing has been said about a section, and marks it as closed. -/
def Draft.close (d : Draft) (title : String) : Except Cause Draft :=
  if d.closed.contains title || d.started.contains title then .error (.repeated title)
  else .ok { d with closed := title :: d.closed }

def sectionOf (title : String) : Except Cause (Entries Name) :=
  match section? title with
  | some keys => .ok keys
  | none => .error (.unknown title)

def keyText (key : List String) : String := ".".intercalate key

def Draft.add (d : Draft) : Toml.Statement → Except Cause Draft
  | .header [title] => do
    let keys ← sectionOf title
    let d ← d.close title
    .ok { d with current := some keys }
  | .header key => .error (.unknown (keyText key))
  | .assign key item =>
    match d.current, key with
    | some keys, [key] => d.setKey keys key item
    | none, [title] => do
      let keys ← sectionOf title
      let d ← d.close title
      d.setSection title keys item
    | none, [title, key] => do
      let keys ← sectionOf title
      if d.closed.contains title then .error (.repeated title)
      else Draft.setKey { d with started := title :: d.started } keys key item
    | _, _ => .error (.unknown (keyText key))

/-- Takes up the statements of a file. -/
def Draft.addAll : Draft → List Toml.Located → Except Fault Draft
  | d, [] => .ok d
  | d, located :: rest => do
    let d ← (d.add located.statement).mapError fun cause => ⟨located.line, cause⟩
    d.addAll rest

def ofText (text : String) : Except Fault Settings := do
  let statements ← (Toml.read text).mapError fun line => ⟨line, .malformed⟩
  let draft ← Draft.first.addAll statements
  .ok draft.settings

end Settings

end Remap
