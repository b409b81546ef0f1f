import Remap.CommandLine.Run

/-!
# The program

Looks at the files that the arguments lead to, runs the command on what is seen, and carries out
what the outcome says.
-/

namespace Remap

def absolutePath (place : Trail) : String := "/" ++ "/".intercalate place

def trailOf (path : String) : Trail := (path.splitOn "/").filter (· != "")

/-- Whether a place without its links lies below another. -/
def liesBelow (place top : Trail) : IO Bool := do
  let real ← IO.FS.realPath ⟨absolutePath place⟩
  let realTop ← IO.FS.realPath ⟨absolutePath top⟩
  return (trailOf realTop.toString).isPrefixOf (trailOf real.toString)

/-- Adds what is at a place, if there is anything. -/
def lookAt (storage : Storage) (place : Trail) : IO Storage := do
  if storage.isTaken place then return storage
  try
    let path ← IO.FS.realPath ⟨absolutePath place⟩
    if ← path.isDir then return { storage with directories := place :: storage.directories }
    let bytes ← IO.FS.readBinFile path
    return { storage with files := (place, String.fromUTF8? bytes) :: storage.files }
  catch _ => return storage

def lookUp (storage : Storage) (path : String) : IO Storage :=
  (CommandLine.placesOf storage path).foldlM lookAt storage

/-- Adds the file of a library. One that a link leads to must lie beside the rules in truth. -/
def lookUpLibrary (rules : String) (storage : Storage) (name : String) : IO Storage := do
  let path := CommandLine.libraryBeside rules name
  let found ← lookUp storage path
  let places := CommandLine.placesOf storage path
  let folder := CommandLine.placesOf storage (Storage.folderOf rules)
  try
    let place := places.getLastD storage.workingDirectory
    let top := folder.getLastD storage.workingDirectory
    if top.isPrefixOf place && !(← liesBelow place top) then return storage
    return found
  catch _ => return found

/-- Adds the libraries that rules ask for, and those that these ask for in turn. -/
partial def lookUpLibraries (rules : String) (known : List String) (storage : Storage) :
    IO Storage := do
  let names := (CommandLine.librariesAsked storage rules).filter (!known.contains ·)
  if names.isEmpty then return storage
  lookUpLibraries rules (names ++ known) (← names.foldlM (lookUpLibrary rules) storage)

/-- What can be seen of the files that the arguments lead to. -/
def look (environment : Option String) (arguments : List String) : IO Storage := do
  let storage : Storage := ⟨trailOf (← IO.currentDir).toString, [], []⟩
  match CommandLine.parse environment arguments with
  | .error _ => return storage
  | .ok invocation =>
    let seen ← invocation.paths.foldlM lookUp storage
    lookUpLibraries invocation.command.rules [] seen

/-- Evaluates something and takes the time in microseconds. -/
def timed {α : Type} (act : Unit → α) : IO (α × Nat) := do
  let start ← IO.monoNanosNow
  let value ← IO.lazyPure act
  let stop ← IO.monoNanosNow
  return (value, (stop - start) / 1000)

def measure (b : CommandLine.Benchmark) : IO CommandLine.Result := do
  let (compiled, compileTime) ← timed fun _ => b.plan
  match compiled with
  | .error _ => return b.result compileTime []
  | .ok plan =>
    let runs ← b.inputs.mapM fun input => timed fun _ => Run.execute plan input
    return b.result compileTime (runs.map (·.2))

/-- Writes the files that an outcome changes and prints what it says. -/
def carryOut (before : Storage) (outcome : CommandLine.Outcome) : IO UInt32 := do
  for (place, text) in Storage.changes before outcome.storage do
    IO.FS.writeFile ⟨absolutePath place⟩ text
  IO.print outcome.output
  IO.eprint outcome.errorOutput
  return UInt32.ofNat outcome.exitCode

end Remap

open Remap in
/-- Runs the program on its arguments. -/
def main (arguments : List String) : IO UInt32 := do
  let environment ← IO.getEnv "ACV_CONFIG"
  let storage ← look environment arguments
  match CommandLine.run storage environment arguments with
  | .finished outcome => carryOut storage outcome
  | .benchmark b => carryOut storage (← measure b).outcome
