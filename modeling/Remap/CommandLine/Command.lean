import Remap.Format
import Remap.Version

/-!
# Commands

What the program can be told to do, and what can be given along with a command: parameters, which
have a value, and switches, which have none.
-/

namespace Remap.CommandLine

/-- How a failure is put into words on the error stream. -/
inductive ErrorStyle where
  | text
  | json
deriving DecidableEq, Repr

def ErrorStyle.ofName? : String → Option ErrorStyle
  | "text" => some text
  | "json" => some json
  | _ => none

/-- What to do; texts are paths. -/
inductive Command where
  | validate (rules : String)
  | lint (rules : String)
  | doctor (rules : String) (input : Option String) (format : Option Format) (applyFixes : Bool)
      (out : Option String)
  | compatibility (rules : String) (target : Version)
  | bundle (rules out : String)
  | convert (rules input output : String) (pretty : Bool)
  | benchmark (rules input : String) (iterations : Option Nat)

/-- A command with what holds for all commands. -/
structure Invocation where
  /-- The path of the settings file. -/
  config : String
  errorStyle : ErrorStyle
  quiet : Bool
  verbosity : Nat
  command : Command

/-- The levels of the command language: the program itself, the group of commands about rules, and
the commands. -/
inductive Level where
  | top
  | rules
  | validate
  | lint
  | doctor
  | compatibility
  | bundle
  | convert
  | benchmark
deriving DecidableEq, Repr

/-- The level that a word leads to. -/
def Level.down? : Level → String → Option Level
  | top, "rules" => some rules
  | top, "convert" => some convert
  | top, "benchmark" => some benchmark
  | rules, "validate" => some validate
  | rules, "lint" => some lint
  | rules, "doctor" => some doctor
  | rules, "compatibility" => some compatibility
  | rules, "bundle" => some bundle
  | _, _ => none

/-- Whether a level is left by a further word. -/
def Level.isGroup : Level → Bool
  | top | rules => true
  | _ => false

/-- What can be given a value. -/
inductive Parameter where
  | config
  | errorFormat
  | rules
  | input
  | output
  | out
  | format
  | target
  | iterations
deriving DecidableEq, Repr

namespace Parameter

def name : Parameter → String
  | config => "config"
  | errorFormat => "error-format"
  | rules => "rules"
  | input => "input"
  | output => "output"
  | out => "out"
  | format => "format"
  | target => "target"
  | iterations => "iterations"

/-- The number that a text writes in decimal digits, within 64 bits. A plus may stand in front. -/
def readCount? (text : String) : Option Nat :=
  let digits := match text.toList with
    | '+' :: digits => digits
    | digits => digits
  if digits.isEmpty || !digits.all Decimal.isDigit then none
  else
    let n := Decimal.ofDigits digits
    if n < UInt64.size then some n else none

/-- Whether a parameter can have the given value. -/
def accepts : Parameter → String → Bool
  | errorFormat, text => (ErrorStyle.ofName? text).isSome
  | format, text => (Format.ofText text).isOk
  | target, text => (Version.parse text).isOk
  | iterations, text => (readCount? text).isSome
  | _, text => text != ""

end Parameter

/-- What can be given without a value. -/
inductive Switch where
  | quiet
  | verbose
  | pretty
  | applyFixes
  | help
  | version
deriving DecidableEq, Repr

def Switch.name : Switch → String
  | quiet => "quiet"
  | verbose => "verbose"
  | pretty => "pretty"
  | applyFixes => "apply-safe-fixes"
  | help => "help"
  | version => "version"

def Switch.ofLetter? : Char → Option Switch
  | 'v' => some verbose
  | 'h' => some help
  | 'V' => some version
  | _ => none

namespace Level

def parameters (level : Level) : List Parameter :=
  [.config, .errorFormat] ++ match level with
    | doctor => [.rules, .input, .format, .out]
    | compatibility => [.rules, .target]
    | bundle => [.rules, .out]
    | convert => [.rules, .input, .output]
    | benchmark => [.rules, .input, .iterations]
    | _ => []

def switches (level : Level) : List Switch :=
  [.quiet, .verbose, .help] ++ match level with
    | top => [.version]
    | doctor => [.applyFixes]
    | convert => [.pretty]
    | _ => []

/-- Whether a level takes the path of a file as a word of its own. -/
def takesFile : Level → Bool
  | validate | lint => true
  | _ => false

end Level

def usageLines : List String :=
  ["Usage: acv [OPTIONS] <COMMAND>",
    "",
    "Commands:",
    "  rules validate <FILE>",
    "  rules lint <FILE>",
    "  rules doctor --rules <FILE> [--input <FILE>] [--format <FORMAT>] [--apply-safe-fixes]",
    "               [--out <FILE>]",
    "  rules compatibility --rules <FILE> --target <VERSION>",
    "  rules bundle --rules <FILE> --out <FILE>",
    "  convert --rules <FILE> --input <FILE> --output <FILE> [--pretty]",
    "  benchmark --rules <FILE> --input <FILE> [--iterations <COUNT>]",
    "",
    "Options:",
    "      --config <FILE>          settings [env: ACV_CONFIG] [default: acv.toml]",
    "      --error-format <FORMAT>  text or json [default: text]",
    "      --quiet                  no error messages",
    "  -v, --verbose                more messages",
    "  -h, --help                   this text",
    "  -V, --version                the version"]

def usage : String := String.join (usageLines.map (· ++ "\n"))

/-- The name and the version of the program. -/
def versionText : String := "acv 0.1.0\n"

end Remap.CommandLine
