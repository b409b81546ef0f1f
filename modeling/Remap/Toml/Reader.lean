import Remap.Json.Reader

/-!
# Reading TOML

A settings file in TOML is a list of statements: headers that open a section, and values for keys.
Of the values that TOML has, settings need truth values, whole numbers, lists and tables.

Every reader takes the text that is left and gives back what it read with what is left then. A
reader that gives nothing found a fault, and a fault is known by the line of its statement.
-/

namespace Remap.Toml

/-- A value. -/
inductive Item where
  | truth (b : Bool)
  | whole (n : Int)
  | list (items : List Item)
  | table (entries : List (String × Item))

/-- What a statement says. A key in parts names an entry of a table. -/
inductive Statement where
  | header (key : List String)
  | assign (key : List String) (item : Item)

/-- A statement with the line it starts on. -/
structure Located where
  line : Nat
  statement : Statement

/-- A reader of things of some kind. -/
abbrev Reader (α : Type) := List Char → Option (α × List Char)

/-- A text without the spaces and tabs in front. -/
def skipBlanks (text : List Char) : List Char := text.dropWhile fun c => c == ' ' || c == '\t'

def isCommentChar (c : Char) : Bool :=
  c == '\t' || (0x20 ≤ c.toNat && c.toNat != 0x7F)

/-- A text without the comment in front. -/
def skipComment : List Char → List Char
  | '#' :: rest => rest.dropWhile isCommentChar
  | text => text

def lineBreak? : List Char → Option (List Char)
  | '\n' :: rest => some rest
  | '\r' :: '\n' :: rest => some rest
  | _ => none

/-- What follows the end of a line, on which only a comment may be left. -/
def lineEnd? (text : List Char) : Option (List Char) :=
  match skipComment (skipBlanks text) with
  | [] => some []
  | rest => lineBreak? rest

/-! ## Keys -/

/-- Whether a character may stand in a key without quotes. -/
def isBareChar (c : Char) : Bool := c.isAlphanum || c == '_' || c == '-'

def charOfHex? (digits : List Char) : Option Char := do
  let values ← digits.mapM Json.hexValue?
  some (Char.ofNat (values.foldl (fun n d => 16 * n + d) 0))

/-- The characters of a key up to its closing quote, behind those already read. -/
def readQuoted : List Char → Reader String
  | read, '"' :: rest => some (String.ofList read.reverse, rest)
  | read, '\\' :: 'u' :: a :: b :: c :: d :: rest => do
    readQuoted ((← charOfHex? [a, b, c, d]) :: read) rest
  | read, '\\' :: 'U' :: a :: b :: c :: d :: e :: f :: g :: h :: rest => do
    readQuoted ((← charOfHex? [a, b, c, d, e, f, g, h]) :: read) rest
  | _, '\\' :: 'u' :: _ => none
  | _, '\\' :: 'U' :: _ => none
  | read, '\\' :: c :: rest => do
    if c = '/' then none else readQuoted ((← Json.simpleEscape? c) :: read) rest
  | read, c :: rest => if isCommentChar c then readQuoted (c :: read) rest else none
  | _, [] => none

/-- The characters of a key up to the closing single quote. -/
def readLiteral (text : List Char) : Option (String × List Char) :=
  match text.span fun c => isCommentChar c && c != '\'' with
  | (name, '\'' :: rest) => some (String.ofList name, rest)
  | _ => none

def readPart : Reader String
  | '"' :: rest => readQuoted [] rest
  | '\'' :: rest => readLiteral rest
  | text =>
    match text.span isBareChar with
    | ([], _) => none
    | (name, rest) => some (String.ofList name, rest)

/-- A key of at most so many parts, with dots between them. -/
def readKey : Nat → Reader (List String)
  | 0, _ => none
  | fuel + 1, text => do
    let (part, rest) ← readPart text
    match skipBlanks rest with
    | '.' :: more =>
      let (parts, rest) ← readKey fuel (skipBlanks more)
      some (part :: parts, rest)
    | rest => some ([part], rest)

/-! ## Values -/

/-- The number that digits write in a base; single underscores may stand between digits. -/
def readDigits? (base : Nat) (digits : List Char) : Option Nat :=
  let groups := (String.ofList digits).splitOn "_"
  if groups.any String.isEmpty then none
  else do
    let values ← (digits.filter (· != '_')).mapM Json.hexValue?
    if values.all (· < base) then some (values.foldl (fun n d => base * n + d) 0) else none

/-- The number that decimal digits write; a zero in front stands alone. -/
def readDecimal? : List Char → Option Nat
  | ['0'] => some 0
  | '0' :: _ => none
  | digits => readDigits? 10 digits

/-- The number that a word writes. -/
def readWhole? : List Char → Option Int
  | '0' :: 'x' :: digits => (readDigits? 16 digits).map Int.ofNat
  | '0' :: 'o' :: digits => (readDigits? 8 digits).map Int.ofNat
  | '0' :: 'b' :: digits => (readDigits? 2 digits).map Int.ofNat
  | '-' :: digits => (readDecimal? digits).map fun n => -Int.ofNat n
  | '+' :: digits => (readDecimal? digits).map Int.ofNat
  | digits => (readDecimal? digits).map Int.ofNat

/-- The value that a word stands for. Numbers have 64 bits. -/
def readWord? (word : List Char) : Option Item :=
  if word = "true".toList then some (.truth true)
  else if word = "false".toList then some (.truth false)
  else do
    let n ← readWhole? word
    if Int64.minValue.toInt ≤ n ∧ n ≤ Int64.maxValue.toInt then some (.whole n) else none

def isWordChar (c : Char) : Bool := isBareChar c || c == '+' || c == '.' || c == ':'

/-- A text without white space, line breaks and comments in front; every comment ends its line. -/
def skipLines? : Nat → List Char → Option (List Char)
  | 0, _ => none
  | fuel + 1, text =>
    match skipBlanks text with
    | '#' :: rest => do
      let rest ← lineBreak? (skipComment ('#' :: rest))
      skipLines? fuel rest
    | rest =>
      match lineBreak? rest with
      | some rest => skipLines? fuel rest
      | none => some rest

mutual

def readItem : Nat → Reader Item
  | 0, _ => none
  | fuel + 1, '[' :: rest => (readItems fuel rest).map fun (items, rest) => (.list items, rest)
  | fuel + 1, '\x7b' :: rest =>
    match skipBlanks rest with
    | '\x7d' :: rest => some (.table [], rest)
    | rest => (readEntries fuel rest).map fun (entries, rest) => (.table entries, rest)
  | _ + 1, text =>
    let (word, rest) := text.span isWordChar
    (readWord? word).map fun item => (item, rest)

/-- The items of a list up to its closing bracket. -/
def readItems : Nat → Reader (List Item)
  | 0, _ => none
  | fuel + 1, text => do
    match ← skipLines? (text.length + 1) text with
    | ']' :: rest => some ([], rest)
    | text =>
      let (item, rest) ← readItem fuel text
      match ← skipLines? (rest.length + 1) rest with
      | ']' :: rest => some ([item], rest)
      | ',' :: rest =>
        let (items, rest) ← readItems fuel rest
        some (item :: items, rest)
      | _ => none

/-- The entries of a table up to its closing brace. All of them stand on one line, and their keys
have one part. -/
def readEntries : Nat → Reader (List (String × Item))
  | 0, _ => none
  | fuel + 1, text => do
    let (name, rest) ← readPart (skipBlanks text)
    match skipBlanks rest with
    | '=' :: rest =>
      let (item, rest) ← readItem fuel (skipBlanks rest)
      match skipBlanks rest with
      | '\x7d' :: rest => some ([(name, item)], rest)
      | ',' :: rest =>
        let (entries, rest) ← readEntries fuel rest
        some ((name, item) :: entries, rest)
      | _ => none
    | _ => none

end

/-! ## Statements -/

/-- The rest of a header after its opening bracket. -/
def readHeader (text : List Char) : Option (Statement × List Char) := do
  let (key, rest) ← readKey text.length (skipBlanks text)
  match rest with
  | ']' :: rest => some (.header key, ← lineEnd? rest)
  | _ => none

def readAssignment (text : List Char) : Option (Statement × List Char) := do
  let (key, rest) ← readKey text.length text
  match rest with
  | '=' :: rest =>
    let (item, rest) ← readItem (2 * text.length) (skipBlanks rest)
    some (.assign key item, ← lineEnd? rest)
  | _ => none

def readStatement : Reader Statement
  | '[' :: rest => readHeader rest
  | text => readAssignment text

/-- The statements of a text from a line on, or the line of the first fault. -/
def readFrom : Nat → Nat → List Char → Except Nat (List Located)
  | 0, line, _ => .error line
  | fuel + 1, line, text =>
    match skipBlanks text with
    | [] => .ok []
    | text =>
      match lineEnd? text with
      | some rest => readFrom fuel (line + 1) rest
      | none =>
        match readStatement text with
        | none => .error line
        | some (statement, rest) => do
          let lines := (text.take (text.length - rest.length)).count '\n'
          let statements ← readFrom fuel (line + lines) rest
          .ok (⟨line, statement⟩ :: statements)

/-- The statements of a text, or the line of the first fault. A byte order mark may stand in
front. -/
def read (text : String) : Except Nat (List Located) :=
  let chars := text.toList
  let chars := if chars.head? = some '\uFEFF' then chars.tail else chars
  readFrom (chars.length + 1) 1 chars

end Remap.Toml
