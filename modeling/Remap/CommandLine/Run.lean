import Remap.CommandLine.Arguments
import Remap.CommandLine.Command
import Remap.Compatibility.Report
import Remap.Doctor.Report
import Remap.Profile
import Remap.Run.Convert
import Remap.Settings
import Remap.Storage.Basic
import Remap.Text.Basic

/-!
# Running commands

A command reads files, comes to a report and may write a file. The exit code is 0 for a good report,
1 for a bad one or a failure, and 2 for arguments that mean nothing. A benchmark needs a clock, so
its report waits for the times.

The files that an invocation may read or write are known before it runs, so that they can be looked
at. Which libraries are needed shows only as the ones before them are read.
-/

namespace Remap.CommandLine

/-! ## Failures -/

/-- Why a command has nothing to report. Texts are paths as they were given. -/
inductive Failure where
  | unreadable (path : String) (fault : Storage.Fault)
  | unwritable (path : String) (fault : Storage.Fault)
  | settings (path : String) (fault : Settings.Fault)
  | input (path : String) (error : Payload.ReadError)
  | sample (path : String) (line : Nat) (error : Payload.ReadError)
  | noSamples (path : String)
  | noIterations
  | doctor (sample : Doctor.BadSample)

def Failure.message : Failure → String
  | unreadable path fault => "error reading file '" ++ path ++ "': " ++ fault.message
  | unwritable path fault => "error writing file '" ++ path ++ "': " ++ fault.message
  | settings path fault => "invalid config file '" ++ path ++ "': " ++ fault.message
  | input path error => "input '" ++ path ++ "': " ++ error.message
  | sample path line error => path ++ ":" ++ toString line ++ ": " ++ error.message
  | noSamples path => "no samples in '" ++ path ++ "'"
  | noIterations => "--iterations must be at least 1"
  | doctor bad => bad.message

/-- What a failure looks like on the error stream. -/
def Failure.shown (f : Failure) : ErrorStyle → String
  | .text => f.message ++ "\n"
  | .json => Json.writeDocument false (.object [("error", .string f.message)]) ++ "\n"

/-! ## Runs -/

/-- What a run of the program leaves behind. -/
structure Outcome where
  exitCode : Nat
  output : String
  errorOutput : String
  storage : Storage

/-- What a command comes to. -/
structure Result where
  report : Value
  isGood : Bool
  storage : Storage

def Result.outcome (r : Result) : Outcome :=
  ⟨if r.isGood then 0 else 1, Json.writeDocument true r.report ++ "\n", "", r.storage⟩

def Failure.outcome (f : Failure) (i : Invocation) (storage : Storage) : Outcome :=
  ⟨1, "", if i.quiet then "" else f.shown i.errorStyle, storage⟩

/-- The outcome of arguments that are no invocation. -/
def Stop.outcome (storage : Storage) : Stop → Outcome
  | .misuse m => ⟨2, "", "error: " ++ m.message ++ "\n\n" ++ usage, storage⟩
  | .help => ⟨0, usage, "", storage⟩
  | .version => ⟨0, versionText, "", storage⟩

/-- Rules to be timed. -/
structure Benchmark where
  rules : String
  libraries : Fragment.Source
  samples : List Value
  iterations : Nat
  storage : Storage

/-- What a command comes to, or what has to be timed for it. -/
inductive Answer where
  | done (result : Result)
  | benchmark (b : Benchmark)

/-- The report on rules that have no plan. -/
def rejection (errors : List Diagnostic) : Value :=
  .object [("validationErrors", Diagnostic.reports errors)]

namespace Benchmark

def plan (b : Benchmark) : Except (List Diagnostic) Plan := Plan.compileText b.libraries b.rules

def inputs (b : Benchmark) : List Value := Profile.schedule b.samples b.iterations

/-- What a benchmark comes to, given the time to compile and the times of the runs. -/
def result (b : Benchmark) (compileTime : Nat) (times : List Nat) : Result :=
  match b.plan with
  | .error errors => ⟨rejection errors, false, b.storage⟩
  | .ok plan =>
    let report := Profile.Report.ofTimes compileTime times (Profile.failedRuns plan b.inputs)
    ⟨report.report, true, b.storage⟩

end Benchmark

def readFile (storage : Storage) (path : String) : Except Failure String :=
  (storage.read path).mapError (.unreadable path)

def writeFile (storage : Storage) (path text : String) : Except Failure Storage :=
  (storage.write path text).mapError (.unwritable path)

def fileText (tree : Value) : String := Json.writeDocument true tree ++ "\n"

def runValidate (storage : Storage) (rules : String) : Except Failure Result := do
  let text ← readFile storage rules
  let verdict := Plan.validate (storage.librariesBeside rules) text
  .ok ⟨verdict.report, verdict.isValid, storage⟩

/-- Reports all that may be wrong with rules. -/
def runLint (storage : Storage) (rules : String) : Except Failure Result := do
  let text ← readFile storage rules
  let issues := Lint.text (storage.librariesBeside rules) text
  .ok ⟨Lint.report issues, !Diagnostic.hasErrors issues, storage⟩

/-- The sample for the doctor. The format that is asked for counts before the one that the
extension stands for. -/
def doctorRequest (storage : Storage) (settings : Settings) (input : Option String)
    (format : Option Format) (applyFixes : Bool) : Except Failure Doctor.Request := do
  let sample ← input.mapM (readFile storage)
  .ok ⟨sample, format <|> input.bind Format.ofPath?, applyFixes, settings.limits⟩

/-- Writes the fixed rules, if there is a place for them and any fix was asked for. -/
def writeFixed (storage : Storage) (report : Doctor.Report) (out : Option String) :
    Except Failure Storage :=
  match out, report.fixedRules with
  | some out, some fixed => writeFile storage out (fileText fixed.tree)
  | _, _ => .ok storage

def runDoctor (storage : Storage) (settings : Settings) (rules : String) (input : Option String)
    (format : Option Format) (applyFixes : Bool) (out : Option String) : Except Failure Result := do
  let text ← readFile storage rules
  let request ← doctorRequest storage settings input format applyFixes
  let report ← (Doctor.examine (storage.librariesBeside rules) text request).mapError .doctor
  let written ← writeFixed storage report out
  .ok ⟨report.report, !report.hasUnresolvedErrors, written⟩

def runCompatibility (storage : Storage) (rules : String) (target : Version) :
    Except Failure Result := do
  let text ← readFile storage rules
  match Rule.Document.parse text with
  | .error errors =>
    .ok ⟨.object [("isCompatible", .bool false), ("reasons", .array []),
      ("errors", Diagnostic.reports errors)], false, storage⟩
  | .ok document =>
    let reasons := Compatibility.reasons document target
    .ok ⟨Compatibility.report reasons, Compatibility.isCompatible reasons, storage⟩

def bundledTree (document : Rule.Document) (found : List Diagnostic) : Value :=
  match document.tree with
  | .object entries =>
    .object (Entries.put "validationErrors" (Diagnostic.reports found) entries)
  | tree => tree

/-- Writes rules as one document, whatever is wrong with it. -/
def runBundle (storage : Storage) (rules out : String) : Except Failure Result := do
  let text ← readFile storage rules
  match Fragment.bundleText (storage.librariesBeside rules) text with
  | .error errors => .ok ⟨rejection errors, false, storage⟩
  | .ok bundle =>
    let found := Plan.findings bundle
    let written ← writeFile storage out (fileText (bundledTree bundle.document found))
    .ok ⟨.object [("out", .string out), ("validationErrors", Diagnostic.reports found)],
      !Diagnostic.hasErrors found, written⟩

def writeConverted (storage : Storage) (output : String) (converted : Run.Converted) :
    Except Failure Result := do
  let warnings := Diagnostic.reports converted.outcome.warnings
  match converted.text with
  | some text =>
    let written ← writeFile storage output text
    .ok ⟨.object [("outputPath", .string output), ("warnings", warnings)], true, written⟩
  | none =>
    let errors := Diagnostic.reports converted.outcome.errors
    .ok ⟨.object [("errors", errors), ("warnings", warnings)], false, storage⟩

/-- Converts a payload. Extensions stand for formats, and a path without a known one has the format
that the rules declare. -/
def runConvert (storage : Storage) (settings : Settings) (rules input output : String)
    (pretty : Bool) : Except Failure Result := do
  let text ← readFile storage rules
  match Plan.compileText (storage.librariesBeside rules) text with
  | .error errors => .ok ⟨rejection errors, false, storage⟩
  | .ok plan =>
    let payload ← readFile storage input
    let source := (Format.ofPath? input).getD plan.inputFormat
    let target := (Format.ofPath? output).getD plan.outputFormat
    let converted ←
      (Run.convert plan payload source target (pretty || settings.pretty) settings.limits).mapError
        (.input input)
    writeConverted storage output converted

/-- The values of lines, the first of which has the given number. Blank lines have none. -/
def readSamples (path : String) (limits : Limits) : Nat → List (List Char) →
    Except Failure (List Value)
  | _, [] => .ok []
  | number, line :: rest =>
    if line.all Text.isBlank then readSamples path limits (number + 1) rest
    else do
      let sample ← (Payload.read .json limits (String.ofList line)).mapError (.sample path number)
      let samples ← readSamples path limits (number + 1) rest
      .ok (sample :: samples)

def prepareBenchmark (storage : Storage) (settings : Settings) (rules input : String)
    (iterations : Option Nat) : Except Failure Benchmark := do
  let text ← readFile storage rules
  let lines ← readFile storage input
  let samples ← readSamples input settings.limits 1 (Text.lines lines.toList)
  let iterations := iterations.getD settings.iterations
  match Profile.check samples iterations with
  | .ok () => .ok ⟨text, storage.librariesBeside rules, samples, iterations, storage⟩
  | .error .noSamples => .error (.noSamples input)
  | .error _ => .error .noIterations

def perform (storage : Storage) (settings : Settings) : Command → Except Failure Answer
  | .validate rules => (runValidate storage rules).map .done
  | .lint rules => (runLint storage rules).map .done
  | .doctor rules input format applyFixes out =>
    (runDoctor storage settings rules input format applyFixes out).map .done
  | .compatibility rules target => (runCompatibility storage rules target).map .done
  | .bundle rules out => (runBundle storage rules out).map .done
  | .convert rules input output pretty =>
    (runConvert storage settings rules input output pretty).map .done
  | .benchmark rules input iterations =>
    (prepareBenchmark storage settings rules input iterations).map .benchmark

/-- The settings in a file; without the file the standard ones hold. -/
def loadSettings (storage : Storage) (path : String) : Except Failure Settings :=
  if storage.has path then do
    let text ← readFile storage path
    (Settings.ofText text).mapError (.settings path)
  else .ok .standard

def Invocation.answer (i : Invocation) (storage : Storage) : Except Failure Answer := do
  let settings ← loadSettings storage i.config
  perform storage settings i.command

/-- What is known of a run before any clock is read. -/
inductive Reply where
  | finished (outcome : Outcome)
  | benchmark (b : Benchmark)

def run (storage : Storage) (environment : Option String) (arguments : List String) : Reply :=
  match parse environment arguments with
  | .error stop => .finished (stop.outcome storage)
  | .ok invocation =>
    match invocation.answer storage with
    | .error failure => .finished (failure.outcome invocation storage)
    | .ok (.done result) => .finished result.outcome
    | .ok (.benchmark b) => .benchmark b

/-! ## What an invocation needs -/

def Command.rules : Command → String
  | .validate rules | .lint rules => rules
  | .doctor rules .. => rules
  | .compatibility rules _ => rules
  | .bundle rules _ => rules
  | .convert rules .. => rules
  | .benchmark rules .. => rules

/-- The paths that are given with a command, those of libraries aside. -/
def Command.paths : Command → List String
  | .doctor rules input _ _ out => rules :: input.toList ++ out.toList
  | .bundle rules out => [rules, out]
  | .convert rules input output _ => [rules, input, output]
  | .benchmark rules input _ => [rules, input]
  | command => [command.rules]

def Invocation.paths (i : Invocation) : List String := i.config :: i.command.paths

/-- The names of the libraries that rules ask for, as far as the stored files tell. -/
def librariesAsked (storage : Storage) (rules : String) : List String :=
  match storage.read rules with
  | .error _ => []
  | .ok text =>
    match Rule.Document.parse text with
    | .error _ => []
    | .ok document => (Fragment.collect (storage.librariesBeside rules) document).asked

def libraryBeside (rules name : String) : String :=
  let path := Storage.libraryPath name
  if path.startsWith "/" then path else Storage.folderOf rules ++ "/" ++ path

/-- The places that names lead through, from one to the next. -/
def placesOn (here : Trail) : List String → List Trail
  | [] => []
  | name :: names =>
    if name = "" || name = "." then placesOn here names
    else
      let next := if name = ".." then here.dropLast else here ++ [name]
      next :: placesOn next names

def placesOf (storage : Storage) (path : String) : List Trail :=
  placesOn (Storage.start storage.workingDirectory path) (path.splitOn "/")

end Remap.CommandLine
