import Remap.Format
import Remap.Fragment.Table

/-!
# Stored files

A tree of files with a working directory. Paths are followed name by name: every name but the last
has to be a directory, and two dots lead back to the directory above.

A directory serves the files in it and below it as libraries. A name without an extension means a
JSON file, and no name leads out of the directory.
-/

namespace Remap

/-- A place in a tree: the names that lead to it from the top. -/
abbrev Trail := List String

/-- Files and directories. The directories that lead to a file exist with it. -/
structure Storage where
  workingDirectory : Trail
  /-- Directories that exist even if they are empty. -/
  directories : List Trail
  /-- The files; a file without a text holds bytes that are no UTF-8. -/
  files : List (Trail × Option String)

namespace Storage

/-- Why a file cannot be found, read or written. -/
inductive Fault where
  | notFound
  | notDirectory
  | isDirectory
  | nameTooLong
  | nulInName
  | notText
deriving DecidableEq, Repr

def Fault.message : Fault → String
  | notFound => "No such file or directory (os error 2)"
  | notDirectory => "Not a directory (os error 20)"
  | isDirectory => "Is a directory (os error 21)"
  | nameTooLong => "File name too long (os error 36)"
  | nulInName => "file name contained an unexpected NUL byte"
  | notText => "stream did not contain valid UTF-8"

def file? (s : Storage) (place : Trail) : Option (Option String) :=
  (s.files.find? (·.1 == place)).map (·.2)

def isDirectory (s : Storage) (place : Trail) : Bool :=
  (s.workingDirectory :: s.directories).any place.isPrefixOf
    || s.files.any fun (file, _) => place.isPrefixOf file.dropLast && file != []

/-- Whether there is anything at a place. -/
def isTaken (s : Storage) (place : Trail) : Bool :=
  (s.file? place).isSome || s.isDirectory place

/-- The most bytes that a name may have. -/
def longestName : Nat := 255

/-- The most bytes that a path may have. -/
def longestPath : Nat := 4095

def step (s : Storage) (here : Trail) (name : String) : Except Fault Trail :=
  if !s.isDirectory here then .error .notDirectory
  else if name = "" || name = "." then .ok here
  else if name = ".." then .ok here.dropLast
  else if longestName < name.utf8ByteSize then .error .nameTooLong
  else if s.isTaken (here ++ [name]) then .ok (here ++ [name])
  else .error .notFound

def walk (s : Storage) : Trail → List String → Except Fault Trail
  | here, [] => .ok here
  | here, name :: names => do
    let next ← s.step here name
    s.walk next names

def checkPath (path : String) : Except Fault Unit :=
  if path.toList.contains (Char.ofNat 0) then .error .nulInName
  else if longestPath < path.utf8ByteSize then .error .nameTooLong
  else .ok ()

/-- Where a path starts: at the top with a slash in front, else at the given place. -/
def start (here : Trail) (path : String) : Trail :=
  if path.startsWith "/" then [] else here

/-- The place that a path leads to from a given one. -/
def locate (s : Storage) (here : Trail) (path : String) : Except Fault Trail := do
  checkPath path
  s.walk (start here path) (path.splitOn "/")

def readAt (s : Storage) (place : Trail) : Except Fault String :=
  match s.file? place with
  | some (some text) => .ok text
  | some none => .error .notText
  | none => .error .isDirectory

/-- A text that is read at a place is the text of a file. -/
theorem mem_of_readAt {s : Storage} {place : Trail} {text : String}
    (h : s.readAt place = .ok text) : text ∈ s.files.filterMap (·.2) := by
  unfold readAt file? at h
  split at h <;> cases h
  case h_1 found =>
    obtain ⟨entry, hentry, hcontent⟩ := Option.map_eq_some_iff.mp found
    exact List.mem_filterMap.mpr ⟨entry, List.mem_of_find?_eq_some hentry, hcontent⟩

def has (s : Storage) (path : String) : Bool := (s.locate s.workingDirectory path).isOk

/-- The text of the file that a path leads to. -/
def read (s : Storage) (path : String) : Except Fault String := do
  let place ← s.locate s.workingDirectory path
  s.readAt place

def set (place : Trail) (text : String) :
    List (Trail × Option String) → List (Trail × Option String)
  | [] => [(place, some text)]
  | (file, old) :: rest =>
    if file = place then (file, some text) :: rest else (file, old) :: set place text rest

def newPlace (s : Storage) (here : Trail) (name : String) : Except Fault Trail :=
  if !s.isDirectory here then .error .notDirectory
  else if name = "." || name = ".." then .error .isDirectory
  else if longestName < name.utf8ByteSize then .error .nameTooLong
  else if s.isDirectory (here ++ [name]) then .error .isDirectory
  else .ok (here ++ [name])

/-- Writes a text to a path, whose directory has to exist. A slash at its end asks for a
directory, which cannot be written to. -/
def write (s : Storage) (path text : String) : Except Fault Storage := do
  checkPath path
  let names := path.splitOn "/"
  match names.reverse.dropWhile (· = "") with
  | [] => .error .isDirectory
  | last :: before =>
    let here ← s.walk (start s.workingDirectory path) before.reverse
    if names.getLast? = some "" then .error .isDirectory
    else
      let place ← s.newPlace here last
      .ok { s with files := set place text s.files }

/-- The files that are new or have another text than before. -/
def changes (before after : Storage) : List (Trail × String) :=
  after.files.filterMap fun (place, content) =>
    if before.file? place = some content then none else content.map fun text => (place, text)

end Storage

end Remap

/-! ## Libraries -/

namespace Remap.Storage

/-- The names of a path without the slashes and single dots at its end. -/
def trimmedNames (path : String) : List String :=
  ((path.splitOn "/").reverse.dropWhile fun name => name == "" || name == ".").reverse

/-- The directory that holds the file of a path. -/
def folderOf (path : String) : String :=
  match (trimmedNames path).dropLast with
  | [] => "."
  | [""] => "/"
  | names => "/".intercalate names

def libraryPath (name : String) : String :=
  match Format.extension? name, (Format.pathParts name).getLast? with
  | none, some last =>
    if last = ".." then name else "/".intercalate (trimmedNames name) ++ ".json"
  | _, _ => name

def loadBelow (s : Storage) (top : Trail) (name : String) : Except Fragment.Unavailable String :=
  match s.locate top (libraryPath name) with
  | .error .notFound => .error (.notFound name)
  | .error fault => .error (.unreadable name fault.message)
  | .ok place =>
    if top.isPrefixOf place then
      (s.readAt place).mapError fun fault => .unreadable name fault.message
    else .error (.escapes name)

/-- The text of a library in the directory that a path leads to. -/
def load (s : Storage) (folder name : String) : Except Fragment.Unavailable String :=
  match s.locate s.workingDirectory folder with
  | .error fault => .error (.unreadable name fault.message)
  | .ok top => s.loadBelow top name

/-- A library that is loaded is a file. -/
theorem mem_of_load {s : Storage} {folder name text : String} (h : s.load folder name = .ok text) :
    text ∈ s.files.filterMap (·.2) := by
  unfold load at h
  split at h
  case h_1 => cases h
  case h_2 top _ =>
    unfold loadBelow at h
    split at h
    case h_1 => cases h
    case h_2 => cases h
    case h_3 place _ =>
      split at h
      case isFalse => cases h
      case isTrue =>
        cases hread : s.readAt place with
        | error fault => rw [hread] at h; cases h
        | ok found => rw [hread] at h; cases h; exact mem_of_readAt hread

def libraries (s : Storage) (folder : String) : Fragment.Source where
  load := s.load folder
  finite := ⟨_, fun _ _ h => mem_of_load h⟩

def librariesBeside (s : Storage) (path : String) : Fragment.Source := s.libraries (folderOf path)

end Remap.Storage
