import Remap.CommandLine.Command

/-!
# Arguments

Arguments are taken from left to right, and the first that is out of place ends the reading. Words
lead from the program down to a command; what a level has can be given once on that level. What
holds for all commands can be given on every level, and then the innermost one counts.
-/

namespace Remap.CommandLine

/-- What is wrong with the arguments. -/
inductive Misuse where
  | unexpected (argument : String)
  | repeated (name : String)
  | missingValue (name : String)
  | badValue (name value : String)
  | missing (name : String)
  | missingCommand
deriving DecidableEq, Repr

def Misuse.message : Misuse → String
  | unexpected argument => "unexpected argument '" ++ argument ++ "'"
  | repeated name => "'" ++ name ++ "' cannot be used several times"
  | missingValue name => "a value is required for '--" ++ name ++ "'"
  | badValue name value => "invalid value '" ++ value ++ "' for '--" ++ name ++ "'"
  | missing name => "'" ++ name ++ "' is required"
  | missingCommand => "a command is required"

/-- Why there is nothing to do. -/
inductive Stop where
  | misuse (m : Misuse)
  | help
  | version
deriving DecidableEq, Repr

/-- What is given on one level. -/
structure Given where
  values : List (Parameter × String)
  switches : List Switch
  file : Option String

namespace Given

def nothing : Given := ⟨[], [], none⟩

def value? (g : Given) (p : Parameter) : Option String :=
  (g.values.find? (·.1 == p)).map (·.2)

def addValue (g : Given) (p : Parameter) (value : String) : Except Stop Given :=
  if (g.value? p).isSome then .error (.misuse (.repeated p.name))
  else if !p.accepts value then .error (.misuse (.badValue p.name value))
  else .ok { g with values := (p, value) :: g.values }

/-- Takes up a switch. Only the one for more messages may come several times. -/
def addSwitch (g : Given) : Switch → Except Stop Given
  | .help => .error .help
  | .version => .error .version
  | s =>
    if s != .verbose && g.switches.contains s then .error (.misuse (.repeated s.name))
    else .ok { g with switches := s :: g.switches }

/-- Takes up a word of its own. -/
def addWord (g : Given) (level : Level) (word : String) : Except Stop Given :=
  if !level.takesFile || g.file.isSome then .error (.misuse (.unexpected word))
  else if word = "" then .error (.misuse (.badValue "file" word))
  else .ok { g with file := some word }

/-- Takes up switches that are given by letters behind one dash. -/
def addLetters (g : Given) (level : Level) : List Char → Except Stop Given
  | [] => .ok g
  | letter :: letters =>
    match Switch.ofLetter? letter with
    | some s =>
      if level.switches.contains s then do
        let g ← g.addSwitch s
        g.addLetters level letters
      else .error (.misuse (.unexpected (String.ofList ['-', letter])))
    | none => .error (.misuse (.unexpected (String.ofList ['-', letter])))

/-- The value of a parameter that has to be given. -/
def need (g : Given) (p : Parameter) : Except Stop String :=
  match g.value? p with
  | some value => .ok value
  | none => .error (.misuse (.missing p.name))

def needFile (g : Given) : Except Stop String :=
  match g.file with
  | some file => .ok file
  | none => .error (.misuse (.missing "file"))

end Given

/-- What an argument is by its first characters. -/
inductive Argument where
  | word
  /-- Two dashes: only words follow. -/
  | divider
  | long (name : String) (value : Option String)
  | letters (letters : List Char)

/-- What an argument is. A dash alone is a word. -/
def Argument.of (text : String) : Argument :=
  match text.toList with
  | ['-', '-'] => divider
  | '-' :: '-' :: rest =>
    match rest.span (· != '=') with
    | (name, []) => long (String.ofList name) none
    | (name, _ :: value) => long (String.ofList name) (some (String.ofList value))
  | '-' :: c :: rest => letters (c :: rest)
  | _ => word

/-- Whether an argument can be the value of the parameter before it. -/
def Argument.isWord : Argument → Bool
  | word => true
  | _ => false

/-- Arguments as far as they are read. -/
structure Progress where
  level : Level
  /-- What is given on the level. -/
  given : Given
  /-- What is given on the levels above, the nearest first. -/
  above : List Given

def Progress.first : Progress := ⟨.top, .nothing, []⟩

/-- What asking for help with the given words comes to. -/
def helpWith : Level → List String → Stop
  | _, [] => .help
  | level, word :: words =>
    match level.down? word with
    | some level => helpWith level words
    | none =>
      if level.isGroup && word = "help" then .help else .misuse (.unexpected word)

/-- Takes up a word that stands alone, with the words after it. -/
def Progress.addWord (p : Progress) (word : String) (rest : List String) :
    Except Stop Progress :=
  match p.level.down? word with
  | some level => .ok ⟨level, .nothing, p.given :: p.above⟩
  | none =>
    if p.level.isGroup && word = "help" then .error (helpWith p.level rest)
    else do .ok { p with given := ← p.given.addWord p.level word }

/-- Takes up a name behind two dashes that has its value with it or needs none. -/
def Progress.addLong (p : Progress) (name : String) : Option String → Except Stop Progress
  | some value =>
    match p.level.parameters.find? (·.name == name) with
    | some parameter => do .ok { p with given := ← p.given.addValue parameter value }
    | none => .error (.misuse (.unexpected ("--" ++ name)))
  | none =>
    match p.level.switches.find? (·.name == name) with
    | some s => do .ok { p with given := ← p.given.addSwitch s }
    | none => .error (.misuse (.unexpected ("--" ++ name)))

/-- The parameter that takes the argument after it as its value. -/
def Progress.awaited? (p : Progress) : Argument → Option Parameter
  | .long name none => p.level.parameters.find? (·.name == name)
  | _ => none

def scan : Progress → List String → Except Stop Progress
  | p, [] => .ok p
  | p, text :: rest =>
    let argument := Argument.of text
    match p.awaited? argument, rest with
    | some parameter, [] => .error (.misuse (.missingValue parameter.name))
    | some parameter, value :: rest =>
      if (Argument.of value).isWord then do
        let given ← p.given.addValue parameter value
        scan { p with given } rest
      else .error (.misuse (.missingValue parameter.name))
    | none, rest =>
      match argument with
      | .divider => do
        let given ← rest.foldlM (fun given word => given.addWord p.level word) p.given
        .ok { p with given }
      | .word => do scan (← p.addWord text rest) rest
      | .long name value => do scan (← p.addLong name value) rest
      | .letters letters => do
        let given ← p.given.addLetters p.level letters
        scan { p with given } rest

def Progress.command (p : Progress) : Except Stop Command := do
  let g := p.given
  match p.level with
  | .top | .rules => .error (.misuse .missingCommand)
  | .validate => .ok (.validate (← g.needFile))
  | .lint => .ok (.lint (← g.needFile))
  | .doctor =>
    let format := (g.value? .format).bind fun text => (Format.ofText text).toOption
    .ok (.doctor (← g.need .rules) (g.value? .input) format (g.switches.contains .applyFixes)
      (g.value? .out))
  | .compatibility =>
    let rules ← g.need .rules
    let target ← g.need .target
    match Version.parse target with
    | .ok version => .ok (.compatibility rules version)
    | .error _ => .error (.misuse (.badValue "target" target))
  | .bundle => .ok (.bundle (← g.need .rules) (← g.need .out))
  | .convert =>
    .ok (.convert (← g.need .rules) (← g.need .input) (← g.need .output)
      (g.switches.contains .pretty))
  | .benchmark =>
    .ok (.benchmark (← g.need .rules) (← g.need .input)
      ((g.value? .iterations).bind Parameter.readCount?))

/-- The settings file that is used unless another one is given. -/
def standardConfig : String := "acv.toml"

/-- The path of the settings file. What the environment gives counts on every level on which the
arguments give nothing, so it has to be a path there. -/
def configPath (environment : Option String) (levels : List Given) : Except Stop String :=
  if environment = some "" && levels.any fun g => (g.value? .config).isNone then
    .error (.misuse (.badValue "config" ""))
  else
    .ok ((levels.findSome? (·.value? .config)).getD (environment.getD standardConfig))

/-- How much more than usual is asked for: what the innermost level that asks at all asks for. -/
def verbosity (levels : List Given) : Nat :=
  ((levels.map fun g => g.switches.count .verbose).find? (0 < ·)).getD 0

/-- The invocation that the arguments stand for. The environment can give a settings file. -/
def parse (environment : Option String) (arguments : List String) : Except Stop Invocation := do
  let progress ← scan .first arguments
  let command ← progress.command
  let levels := progress.given :: progress.above
  let config ← configPath environment levels
  let style := (levels.findSome? (·.value? .errorFormat)).bind ErrorStyle.ofName?
  .ok
    { config
      errorStyle := style.getD .text
      quiet := levels.any (·.switches.contains .quiet)
      verbosity := verbosity levels
      command }

end Remap.CommandLine
