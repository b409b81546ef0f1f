import Remap.Decimal.Literal
import Remap.Pattern.Basic
import Remap.Pattern.Classes
import Remap.Text.Basic

/-!
# Reading patterns

A pattern is read from left to right. Flags such as `(?i)` hold to the end of the group they stand
in, and decide how the characters, classes and places behind them are understood.
-/

namespace Remap.Pattern

/-- How the rest of a group is understood. -/
structure Flags where
  fold : Bool
  /-- Whether `^` and `$` also match at lines. -/
  multiLine : Bool
  /-- Whether a dot also matches a line feed. -/
  dotAll : Bool
  /-- Whether repetitions are lazy unless marked. -/
  lazyFirst : Bool
  unicode : Bool
  /-- Whether lines may end in a carriage return and a line feed. -/
  crlf : Bool
  /-- Whether white space and comments are skipped. -/
  verbose : Bool

def Flags.standard : Flags := ⟨false, false, false, false, true, false, false⟩

/-- Why a text is no pattern. -/
inductive Fault where
  | classEscape
  | classRange
  | classRangeEnd
  | classOpen
  | countDigits
  | countRange
  | countOpen
  | countMissing
  | decimalTooLarge
  | hexEmpty
  | hexNoCharacter
  | hexDigit
  | escapeOpen
  | escapeUnknown
  | flagNegationDangling
  | flagRepeated
  | flagNegationRepeated
  | flagOpen
  | flagUnknown
  | nameRepeated
  | nameEmpty
  | nameCharacter
  | nameOpen
  | groupOpen
  | groupClose
  | tooDeep
  | repetitionOfNothing
  | boundaryOpen
  | boundaryUnknown
  | boundaryEnd
  | propertyMark
  | propertyUnknown
  | propertyValueUnknown
  | backreference
  | lookAround
  | unicodeNotAllowed
  | notUtf8
  | tooLarge (limit : Nat)
deriving DecidableEq, Repr

/-- How deeply a pattern may be nested. -/
def maxPatternDepth : Nat := 250

/-- How many bytes a pattern may be reckoned at. -/
def maxPatternWeight : Nat := 10485760

namespace Fault

def wording : Fault → String
  | classEscape => "invalid escape sequence found in character class"
  | classRange => "invalid character class range, the start must be <= the end"
  | classRangeEnd => "invalid range boundary, must be a literal"
  | classOpen => "unclosed character class"
  | countDigits => "repetition quantifier expects a valid decimal"
  | countRange => "invalid repetition count range, the start must be <= the end"
  | countOpen => "unclosed counted repetition"
  | countMissing => "decimal literal empty"
  | decimalTooLarge => "decimal literal invalid"
  | hexEmpty => "hexadecimal literal empty"
  | hexNoCharacter => "hexadecimal literal is not a Unicode scalar value"
  | hexDigit => "invalid hexadecimal digit"
  | escapeOpen => "incomplete escape sequence, reached end of pattern prematurely"
  | escapeUnknown => "unrecognized escape sequence"
  | flagNegationDangling => "dangling flag negation operator"
  | flagRepeated => "duplicate flag"
  | flagNegationRepeated => "flag negation operator repeated"
  | flagOpen => "expected flag but got end of regex"
  | flagUnknown => "unrecognized flag"
  | nameRepeated => "duplicate capture group name"
  | nameEmpty => "empty capture group name"
  | nameCharacter => "invalid capture group character"
  | nameOpen => "unclosed capture group name"
  | groupOpen => "unclosed group"
  | groupClose => "unopened group"
  | tooDeep =>
    "exceed the maximum number of nested parentheses/brackets (" ++ toString maxPatternDepth ++ ")"
  | repetitionOfNothing => "repetition operator missing expression"
  | boundaryOpen =>
    "special word boundary assertion is either unclosed or contains an invalid character"
  | boundaryUnknown =>
    "unrecognized special word boundary assertion, valid choices are: start, end, start-half or "
      ++ "end-half"
  | boundaryEnd =>
    "found either the beginning of a special word boundary or a bounded repetition on a \\b with "
      ++ "an opening brace, but no closing brace"
  | propertyMark => "invalid Unicode character class"
  | propertyUnknown => "Unicode property not found"
  | propertyValueUnknown => "Unicode property value not found"
  | backreference => "backreferences are not supported"
  | lookAround => "look-around, including look-ahead and look-behind, is not supported"
  | unicodeNotAllowed => "Unicode not allowed here"
  | notUtf8 => "pattern can match invalid UTF-8"
  | tooLarge _ => "pattern is too large"

def message : Fault → String
  | tooLarge limit => "Compiled regex exceeds size limit of " ++ toString limit ++ " bytes."
  | fault => "regex parse error: " ++ fault.wording

end Fault

/-! ## Characters and classes -/

/-- A text without its leading white space and comments, where the flags skip these. `fuel` bounds
its length. -/
def skipFrom : Nat → List Char → List Char
  | 0, text => text
  | fuel + 1, '#' :: rest => skipFrom fuel ((rest.dropWhile (· != '\n')).drop 1)
  | fuel + 1, c :: rest => if Text.isBlank c then skipFrom fuel rest else c :: rest
  | _, [] => []

/-- A text without its leading white space and comments, where the flags skip these. -/
def skip (flags : Flags) (text : List Char) : List Char :=
  if flags.verbose then skipFrom text.length text else text

/-- What an escape or a character stands for. -/
inductive Atom where
  | literal (c : Char)
  | set (s : CharSet)
  | look (l : Look)

/-- The marks with a meaning of their own in patterns. -/
def isMark (c : Char) : Bool := "\\.+*?()|[]\x7b\x7d^$#&-~".toList.contains c

/-- Whether a backslash in front of a character may stand for nothing. -/
def isEscapable (c : Char) : Bool :=
  c.toNat < 128 && !c.isAlphanum && c != '<' && c != '>'

def isHexDigit (c : Char) : Bool :=
  c.isDigit || ('a' ≤ c && c ≤ 'f') || ('A' ≤ c && c ≤ 'F')

def hexChar? (digits : List Char) : Except Fault Char :=
  let n := Text.hexNumber (digits.map Char.toUpper)
  if n.isValidChar then .ok (Char.ofNat n) else .error .hexNoCharacter

/-- Takes `count` hexadecimal digits. -/
def readHexDigits (flags : Flags) : Nat → List Char → Except Fault (List Char × List Char)
  | 0, text => .ok ([], text)
  | count + 1, text =>
    match text with
    | [] => .error .escapeOpen
    | c :: rest =>
      if isHexDigit c then do
        let (digits, rest) ← readHexDigits flags count (skip flags rest)
        .ok (c :: digits, rest)
      else .error .hexDigit

/-- Takes hexadecimal digits up to a closing brace; `fuel` bounds their number. -/
def readHexBrace (flags : Flags) : Nat → List Char → Except Fault (List Char × List Char)
  | 0, _ => .error .escapeOpen
  | _, [] => .error .escapeOpen
  | _, '\x7d' :: rest => .ok ([], skip flags rest)
  | fuel + 1, c :: rest =>
    if isHexDigit c then do
      let (digits, rest) ← readHexBrace flags fuel (skip flags rest)
      .ok (c :: digits, rest)
    else .error .hexDigit

/-- The character of a hexadecimal escape, behind its letter. -/
def readHex (flags : Flags) (count : Nat) (text : List Char) : Except Fault (Char × List Char) :=
  match skip flags text with
  | [] => .error .escapeOpen
  | '\x7b' :: rest => do
    let (digits, rest) ← readHexBrace flags (rest.length + 1) (skip flags rest)
    if digits.isEmpty then .error .hexEmpty
    else
      let c ← hexChar? digits
      .ok (c, rest)
  | text => do
    let (digits, rest) ← readHexDigits flags count text
    let c ← hexChar? digits
    if !flags.unicode && count = 2 && 127 < c.toNat then .error .notUtf8 else .ok (c, rest)

/-- The characters of a property written inside braces, and whether it is negated there. -/
def propertyOf (inner : List Char) : Except Fault (CharSet × Bool) :=
  let valued (name value : List Char) (negated : Bool) : Except Fault (CharSet × Bool) :=
    match propertyValue? (String.ofList name) (String.ofList value) with
    | some s => .ok (s, negated)
    | none => .error .propertyValueUnknown
  match Text.breakAt? ['!', '='] inner with
  | some (name, value) => valued name value true
  | none =>
    match Text.breakAt? [':'] inner with
    | some (name, value) => valued name value false
    | none =>
      match Text.breakAt? ['='] inner with
      | some (name, value) => valued name value false
      | none =>
        match property? (String.ofList inner) with
        | some s => .ok (s, false)
        | none => .error .propertyUnknown

/-- Takes what stands before a closing brace; `fuel` bounds its length. -/
def readBraced (flags : Flags) : Nat → List Char → Except Fault (List Char × List Char)
  | 0, _ => .error .escapeOpen
  | _, [] => .error .escapeOpen
  | _, '\x7d' :: rest => .ok ([], rest)
  | fuel + 1, c :: rest => do
    let (inner, rest) ← readBraced flags fuel (skip flags rest)
    .ok (c :: inner, rest)

/-- A set closed under case where case is ignored, then negated where that is asked. -/
def foldAndNegate (flags : Flags) (negated : Bool) (s : CharSet) : Except Fault CharSet :=
  let folded := if !flags.fold then s else if flags.unicode then s.fold else s.foldAscii
  let result := folded.negateIf negated
  if !flags.unicode && !result.isAscii then .error .notUtf8 else .ok result

/-- The set of a property escape, behind its letter. -/
def readProperty (flags : Flags) (negated : Bool) (text : List Char) :
    Except Fault (CharSet × List Char) := do
  let ((s, differs), rest) ← match skip flags text with
    | [] => .error .escapeOpen
    | '\x7b' :: rest => do
      let (inner, rest) ← readBraced flags (rest.length + 1) (skip flags rest)
      if flags.unicode then
        let property ← propertyOf inner
        .ok (property, rest)
      else .error .unicodeNotAllowed
    | '\\' :: _ => .error .propertyMark
    | c :: rest =>
      if flags.unicode then
        let property ← propertyOf [c]
        .ok (property, skip flags rest)
      else .error .unicodeNotAllowed
  let s ← foldAndNegate flags (negated != differs) s
  .ok (s, rest)

def shortSet (flags : Flags) (c : Short) (negated : Bool) : Except Fault CharSet :=
  let s := (if flags.unicode then c.set else c.ascii).negateIf negated
  if !flags.unicode && !s.isAscii then .error .notUtf8 else .ok s

/-- Takes the letters and dashes in front of a text; `fuel` bounds their number. -/
def readBoundaryName (flags : Flags) : Nat → List Char → List Char × List Char
  | 0, text => ([], text)
  | _, [] => ([], [])
  | fuel + 1, c :: rest =>
    if c.isAlpha || c = '-' then
      let (name, rest) := readBoundaryName flags fuel (skip flags rest)
      (c :: name, rest)
    else ([], c :: rest)

/-- The place of an escaped `b`, behind that letter. A brace behind it that holds a number belongs
to a repetition. -/
def readBoundary (flags : Flags) (text : List Char) : Except Fault (Look × List Char) :=
  let ascii := !flags.unicode
  match text with
  | '\x7b' :: rest =>
    match skip flags rest with
    | [] => .error .boundaryEnd
    | c :: inner =>
      if c.isAlpha || c = '-' then
        let (name, rest) := readBoundaryName flags (inner.length + 1) (c :: inner)
        match rest with
        | '\x7d' :: rest =>
          match String.ofList name with
          | "start" => .ok (.wordStart ascii, rest)
          | "end" => .ok (.wordEnd ascii, rest)
          | "start-half" => .ok (.wordStartHalf ascii, rest)
          | "end-half" => .ok (.wordEndHalf ascii, rest)
          | _ => .error .boundaryUnknown
        | _ => .error .boundaryOpen
      else .ok (.boundary ascii, text)
  | text => .ok (.boundary ascii, text)

/-- What an escape stands for, behind its backslash. -/
def readEscape (flags : Flags) (text : List Char) : Except Fault (Atom × List Char) :=
  let ascii := !flags.unicode
  let short (c : Short) (negated : Bool) (rest : List Char) : Except Fault (Atom × List Char) :=
    (shortSet flags c negated).map fun s => (.set s, rest)
  match text with
  | [] => .error .escapeOpen
  | c :: rest =>
    if c.isDigit then .error .backreference
    else match c with
      | 'x' => (readHex flags 2 rest).map fun (c, rest) => (.literal c, rest)
      | 'u' => (readHex flags 4 rest).map fun (c, rest) => (.literal c, rest)
      | 'U' => (readHex flags 8 rest).map fun (c, rest) => (.literal c, rest)
      | 'p' => (readProperty flags false rest).map fun (s, rest) => (.set s, rest)
      | 'P' => (readProperty flags true rest).map fun (s, rest) => (.set s, rest)
      | 'd' => short .digit false rest
      | 'D' => short .digit true rest
      | 's' => short .space false rest
      | 'S' => short .space true rest
      | 'w' => short .word false rest
      | 'W' => short .word true rest
      | 'a' => .ok (.literal '\x07', rest)
      | 'f' => .ok (.literal '\x0c', rest)
      | 't' => .ok (.literal '\t', rest)
      | 'n' => .ok (.literal '\n', rest)
      | 'r' => .ok (.literal '\r', rest)
      | 'v' => .ok (.literal '\x0b', rest)
      | 'A' => .ok (.look .start, rest)
      | 'z' => .ok (.look .finish, rest)
      | 'b' => (readBoundary flags rest).map fun (l, rest) => (.look l, rest)
      | 'B' => .ok (.look (.noBoundary ascii), rest)
      | '<' => .ok (.look (.wordStart ascii), rest)
      | '>' => .ok (.look (.wordEnd ascii), rest)
      | c => if isMark c || isEscapable c then .ok (.literal c, rest) else .error .escapeUnknown

/-- An operator between sets. -/
inductive SetOp where
  | inter
  | diff
  | symmDiff

/-- The set that an operator with its left side makes of a right side. -/
def applyOp (flags : Flags) (left : Option (SetOp × CharSet)) (right : CharSet) : CharSet :=
  let fold (s : CharSet) :=
    if !flags.fold then s else if flags.unicode then s.fold else s.foldAscii
  match left with
  | none => right
  | some (.inter, left) => (fold left).inter (fold right)
  | some (.diff, left) => (fold left).diff (fold right)
  | some (.symmDiff, left) => (fold left).symmDiff (fold right)

/-- The class of a name between colons, behind the bracket that opens it. -/
def bracketName? (flags : Flags) (text : List Char) : Option (Except Fault CharSet × List Char) :=
  match text with
  | ':' :: rest =>
    let (negated, rest) := match rest with
      | '^' :: rest => (true, rest)
      | rest => (false, rest)
    let (name, rest) := rest.span (· != ':')
    match rest with
    | ':' :: ']' :: rest =>
      (bracketClass? (String.ofList name)).map fun s => (foldAndNegate flags negated s, rest)
    | _ => none
  | _ => none

def readClassAtom (flags : Flags) (text : List Char) : Except Fault (Atom × List Char) :=
  match text with
  | '\\' :: rest => readEscape flags rest
  | c :: rest => .ok (.literal c, rest)
  | [] => .error .classOpen

def rangeEnd : Atom → Except Fault Char
  | .literal c => .ok c
  | _ => .error .classRangeEnd

def classMember (flags : Flags) (c : Char) : Except Fault CharSet :=
  if !flags.unicode && 127 < c.toNat then .error .unicodeNotAllowed else .ok (.single c)

/-- A member of a class, or a range of them. -/
def readClassRange (flags : Flags) (text : List Char) : Except Fault (CharSet × List Char) := do
  let (first, rest) ← readClassAtom flags text
  let alone : Except Fault (CharSet × List Char) := match first with
    | .literal c => (classMember flags c).map fun s => (s, skip flags rest)
    | .set s => .ok (s, skip flags rest)
    | .look _ => .error .classEscape
  match skip flags rest with
  | [] => .error .classOpen
  | '-' :: after =>
    match skip flags after with
    | ']' :: _ | '-' :: _ => alone
    | [] => .error .classOpen
    | after =>
      let (second, rest) ← readClassAtom flags after
      let low ← rangeEnd first
      let high ← rangeEnd second
      if high < low then .error .classRange
      else
        let _ ← classMember flags low
        let _ ← classMember flags high
        .ok (.range low.toNat high.toNat, rest)
  | _ => alone

/-- The dashes in front of a class, which stand for themselves; `fuel` bounds their number. -/
def readDashes (flags : Flags) : Nat → List Char → Bool × List Char
  | fuel + 1, '-' :: rest => (true, (readDashes flags fuel (skip flags rest)).2)
  | _, text => (false, text)

mutual

/-- The set of a class, behind the bracket that opens it; `fuel` bounds its length. -/
def readClass (flags : Flags) : Nat → List Char → Except Fault (CharSet × List Char)
  | 0, _ => .error .classOpen
  | fuel + 1, text => do
    let (negated, text) := match skip flags text with
      | '^' :: rest => (true, skip flags rest)
      | text => (false, text)
    let (dashed, text) := readDashes flags text.length text
    let start := if dashed then CharSet.single '-' else .empty
    let (start, text) := match dashed, text with
      | false, ']' :: rest => (CharSet.single ']', skip flags rest)
      | _, text => (start, text)
    let (s, rest) ← readClassItems flags fuel none start text
    let s ← foldAndNegate flags negated s
    .ok (s, rest)

/-- The set of the rest of a class, behind the members in `found` and an operator with its left
side. -/
def readClassItems (flags : Flags) : Nat → Option (SetOp × CharSet) → CharSet → List Char →
    Except Fault (CharSet × List Char)
  | 0, _, _, _ => .error .classOpen
  | fuel + 1, left, found, text =>
    let next (op : SetOp) (rest : List Char) :=
      readClassItems flags fuel (some (op, applyOp flags left found)) .empty rest
    match skip flags text with
    | [] => .error .classOpen
    | '[' :: rest => do
      let (s, rest) ← match bracketName? flags rest with
        | some (s, rest) => s.map fun s => (s, rest)
        | none => readClass flags fuel rest
      readClassItems flags fuel left (found.union s) rest
    | ']' :: rest => .ok (applyOp flags left found, rest)
    | '&' :: '&' :: rest => next .inter rest
    | '-' :: '-' :: rest => next .diff rest
    | '~' :: '~' :: rest => next .symmDiff rest
    | text => do
      let (s, rest) ← readClassRange flags text
      readClassItems flags fuel left (found.union s) rest

end

/-! ## Groups and repetitions -/

def setFlag (flags : Flags) (c : Char) (on : Bool) : Option Flags :=
  match c with
  | 'i' => some { flags with fold := on }
  | 'm' => some { flags with multiLine := on }
  | 's' => some { flags with dotAll := on }
  | 'U' => some { flags with lazyFirst := on }
  | 'u' => some { flags with unicode := on }
  | 'R' => some { flags with crlf := on }
  | 'x' => some { flags with verbose := on }
  | _ => none

/-- Reads flags up to a colon or a closing parenthesis, behind those `seen` already. -/
def readFlags (seen : List Char) (flags : Flags) :
    List Char → Except Fault (Flags × List Char × Bool)
  | [] => .error .flagOpen
  | c :: rest =>
    if c = ':' ∨ c = ')' then
      if seen.head? = some '-' then .error .flagNegationDangling
      else .ok (flags, c :: rest, seen.isEmpty)
    else if c = '-' then
      if seen.contains '-' then .error .flagNegationRepeated
      else readFlags ('-' :: seen) flags rest
    else match setFlag flags c (!seen.contains '-') with
      | none => .error .flagUnknown
      | some flags =>
        if seen.contains c then .error .flagRepeated else readFlags (c :: seen) flags rest

/-- Whether a character may stand in the name of a group. -/
def isNameChar (first : Bool) (c : Char) : Bool :=
  c == '_' || if first then Text.isAlphabetic c
    else c == '.' || c == '[' || c == ']' || Text.isAlphanumeric c

/-- The name of a group, behind the angle that opens it. -/
def readName (first : Bool) : List Char → Except Fault (List Char × List Char)
  | [] => .error .nameOpen
  | '>' :: rest => .ok ([], rest)
  | c :: rest =>
    if isNameChar first c then do
      let (name, rest) ← readName false rest
      .ok (c :: name, rest)
    else .error .nameCharacter

/-- Takes the digits in front of a text; `fuel` bounds their number. -/
def takeDigits (flags : Flags) : Nat → List Char → List Char × List Char
  | fuel + 1, c :: rest =>
    if c.isDigit then
      let (digits, rest) := takeDigits flags fuel (skip flags rest)
      (c :: digits, rest)
    else ([], c :: rest)
  | _, text => ([], text)

/-- A count of a repetition, with white space around it; none if there are no digits. -/
def readCount (flags : Flags) (text : List Char) : Except Fault (Option Nat × List Char) :=
  let text := text.dropWhile Text.isBlank
  let (digits, rest) := takeDigits flags text.length text
  let rest := skip flags (rest.dropWhile Text.isBlank)
  if digits.isEmpty then .ok (none, rest)
  else
    let n := Decimal.ofDigits digits
    if n < UInt32.size then .ok (some n, rest) else .error .decimalTooLarge

/-- The bounds of a counted repetition, behind its opening brace. -/
def readBounds (flags : Flags) (text : List Char) :
    Except Fault (Nat × Option Nat × List Char) := do
  let text := skip flags text
  if text.isEmpty then .error .countOpen
  let (low, text) ← readCount flags text
  if text.isEmpty then .error .countOpen
  let ((low, high), text) ← match text, low with
    | ',' :: rest, low =>
      match skip flags rest, low with
      | [], _ => .error .countOpen
      | _, none => .error .countDigits
      | '\x7d' :: rest, some low => .ok ((low, none), '\x7d' :: rest)
      | rest, some low => do
        let (high, rest) ← readCount flags rest
        match high with
        | some high => .ok ((low, some high), rest)
        | none => .error .countDigits
    | text, some low => .ok ((low, some low), text)
    | _, none => .error .countDigits
  match text with
  | '\x7d' :: rest => .ok (low, high, rest)
  | _ => .error .countOpen

/-- What is left to read, and what has been met. -/
structure State where
  rest : List Char
  flags : Flags
  groups : Nat
  names : List (String × Nat)

/-- A repetition of the last part; flags cannot be repeated. -/
def repeatLast (min : Nat) (max : Option Nat) (greedy : Bool) :
    List (Option Node) → Except Fault (List (Option Node))
  | some n :: before => .ok (some (.repeated min max greedy n) :: before)
  | _ => .error .repetitionOfNothing

def sequenceOf (read : List (Option Node)) : Node := .ofSequence (read.reverse.filterMap id)

/-- The mark behind a repetition that turns its preference, and the text behind it. -/
def readLazy (flags : Flags) (text : List Char) : Bool × List Char :=
  match text with
  | '?' :: rest => (flags.lazyFirst, rest)
  | rest => (!flags.lazyFirst, rest)

def literalNode (flags : Flags) (c : Char) : Node :=
  .set <|
    if !flags.fold then .single c
    else if flags.unicode then .folded c
    else (CharSet.single c).foldAscii

def atomNode (flags : Flags) : Atom → Node
  | .literal c => literalNode flags c
  | .set s => .set s
  | .look l => .look l

def dotNode (flags : Flags) : Except Fault Node :=
  if !flags.unicode then .error .notUtf8
  else if flags.dotAll then .ok (.set .full)
  else if flags.crlf then .ok (.set (CharSet.ofChars ['\n', '\r']).complement)
  else .ok (.set (CharSet.single '\n').complement)

def caretNode (flags : Flags) : Node :=
  .look (if flags.multiLine then .lineStart flags.crlf else .start)

def dollarNode (flags : Flags) : Node :=
  .look (if flags.multiLine then .lineEnd flags.crlf else .finish)

mutual

/-- The choices up to a closing parenthesis or the end, behind those `read` already in reverse;
`fuel` bounds the length of the text. -/
def readChoices : Nat → List Node → State → Except Fault (Node × State)
  | 0, _, _ => .error .groupOpen
  | fuel + 1, read, st => do
    let (part, st) ← readSequence fuel [] st
    match st.rest with
    | '|' :: rest => readChoices fuel (part :: read) { st with rest := rest }
    | _ => .ok (.ofChoice (part :: read).reverse, st)

/-- The sequence up to a bar, a closing parenthesis or the end, behind the parts `read` already in
reverse. -/
def readSequence : Nat → List (Option Node) → State → Except Fault (Node × State)
  | 0, _, _ => .error .groupOpen
  | fuel + 1, read, st =>
    let flags := st.flags
    let text := skip flags st.rest
    let go (n : Node) (rest : List Char) :=
      readSequence fuel (some n :: read) { st with rest := rest }
    let again (min : Nat) (max : Option Nat) (rest : List Char) := do
      let (greedy, rest) := readLazy flags rest
      let read ← repeatLast min max greedy read
      readSequence fuel read { st with rest := rest }
    match text with
    | [] => .ok (sequenceOf read, { st with rest := [] })
    | ')' :: rest => .ok (sequenceOf read, { st with rest := ')' :: rest })
    | '|' :: rest => .ok (sequenceOf read, { st with rest := '|' :: rest })
    | '(' :: rest => do
      let (part, st) ← readGroup fuel { st with rest := skip flags rest }
      readSequence fuel (part :: read) st
    | '[' :: rest => do
      let (s, rest) ← readClass flags (2 * rest.length + 2) rest
      go (.set s) rest
    | '?' :: rest => again 0 (some 1) rest
    | '*' :: rest => again 0 none rest
    | '+' :: rest => again 1 none rest
    | '\x7b' :: rest => do
      let _ ← repeatLast 0 none true read
      let (min, max, rest) ← readBounds flags rest
      let (greedy, rest) := readLazy flags (skip flags rest)
      match max with
      | some high => if high < min then .error .countRange
      | none => pure ()
      let read ← repeatLast min max greedy read
      readSequence fuel read { st with rest := rest }
    | '\\' :: rest => do
      let (atom, rest) ← readEscape flags rest
      go (atomNode flags atom) rest
    | '.' :: rest => do
      let n ← dotNode flags
      go n rest
    | '^' :: rest => go (caretNode flags) rest
    | '$' :: rest => go (dollarNode flags) rest
    | c :: rest => go (literalNode flags c) rest

/-- A group, or flags for the rest of the group around, behind the opening parenthesis. -/
def readGroup : Nat → State → Except Fault (Option Node × State)
  | 0, _ => .error .groupOpen
  | fuel + 1, st =>
    let close (number : Option Nat) (inner : State) : Except Fault (Option Node × State) := do
      let (n, after) ← readChoices fuel [] inner
      match after.rest with
      | ')' :: rest => .ok (some (.group number n), { after with rest := rest, flags := st.flags })
      | _ => .error .groupOpen
    let named (rest : List Char) := do
      let (name, rest) ← readName true rest
      let name := String.ofList name
      if name.isEmpty then .error .nameEmpty
      else if st.names.any (·.1 == name) then .error .nameRepeated
      else
        let number := st.groups + 1
        close (some number)
          { st with rest := rest, groups := number, names := (name, number) :: st.names }
    match st.rest with
    | '?' :: '=' :: _ | '?' :: '!' :: _ | '?' :: '<' :: '=' :: _ | '?' :: '<' :: '!' :: _ =>
      .error .lookAround
    | '?' :: 'P' :: '<' :: rest => named rest
    | '?' :: '<' :: rest => named rest
    | '?' :: [] => .error .groupOpen
    | '?' :: rest => do
      let (flags, rest, bare) ← readFlags [] st.flags rest
      match rest with
      | ')' :: rest =>
        if bare then .error .repetitionOfNothing
        else .ok (none, { st with rest := rest, flags := flags })
      | rest => close none { st with rest := rest.drop 1, flags := flags }
    | rest =>
      let number := st.groups + 1
      close (some number) { st with rest := rest, groups := number }

end

end Pattern

/-- A pattern: its tree, the number of its capturing groups, and the names of groups. -/
structure Pattern where
  root : Pattern.Node
  groups : Nat
  names : List (String × Nat)
deriving Repr, Inhabited

namespace Pattern

def parse (text : String) : Except Fault Pattern := do
  let chars := text.toList
  let (root, st) ← readChoices (4 * chars.length + 4) [] ⟨chars, .standard, 0, []⟩
  if !st.rest.isEmpty then .error .groupClose
  else if maxPatternDepth < root.depth then .error .tooDeep
  else if maxPatternWeight < root.weight then .error (.tooLarge maxPatternWeight)
  else .ok ⟨root, st.groups, st.names⟩

end Pattern

end Remap
