/-!
# Texts

Texts are lists of characters to their readers. White space is what has the Unicode property
White_Space, a text is cut at every place where a mark stands, from left to right, and lines end
with a line feed, with or without a carriage return before it. Messages locate a fault by byte
offset or by line and column. A reader works on the list of characters it has not consumed, so a
position is known by the bytes that are left after it.
-/

namespace Remap.Text

/-! ## White space and trimming -/

/-- Whether a character has the property White_Space. -/
def isBlank (c : Char) : Bool :=
  let n := c.toNat
  (9 ≤ n && n ≤ 13) || n == 0x20 || n == 0x85 || n == 0xA0 || n == 0x1680
    || (0x2000 ≤ n && n ≤ 0x200A) || n == 0x2028 || n == 0x2029 || n == 0x202F || n == 0x205F
    || n == 0x3000

/-- The characters without white space at either end. -/
def trimChars (text : List Char) : List Char :=
  ((text.dropWhile isBlank).reverse.dropWhile isBlank).reverse

/-- A text without white space at either end. -/
def trim (s : String) : String := String.ofList (trimChars s.toList)

def lowerAscii (s : String) : String := String.ofList (s.toList.map Char.toLower)

/-! ## Splitting -/

/-- What stands before and after the first place of a mark. -/
def breakAt? (mark : List Char) : List Char → Option (List Char × List Char)
  | [] => none
  | c :: rest =>
    if mark.isPrefixOf (c :: rest) then some ([], (c :: rest).drop mark.length)
    else (breakAt? mark rest).map fun (before, after) => (c :: before, after)

/-- The parts of a text between the places of a mark; `fuel` bounds their number. -/
def splitFrom (mark : List Char) : Nat → List Char → List (List Char)
  | 0, text => [text]
  | fuel + 1, text =>
    match breakAt? mark text with
    | none => [text]
    | some (before, after) => before :: splitFrom mark fuel after

/-- The parts of a text between the places of a mark that is not empty. -/
def splitAll (mark text : String) : List String :=
  let chars := text.toList
  (splitFrom mark.toList chars.length chars).map String.ofList

/-! ## Lines -/

/-- The lines of a text without their ends; what follows the last line feed is a line too. -/
def lines : List Char → List (List Char)
  | [] => [[]]
  | '\n' :: rest => [] :: lines rest
  | '\r' :: '\n' :: rest => [] :: lines rest
  | c :: rest =>
    match lines rest with
    | [] => [[c]]
    | line :: others => (c :: line) :: others

/-! ## Positions -/

/-- The number of bytes of a text in UTF-8. -/
def byteLength (text : List Char) : Nat :=
  text.foldl (fun n c => n + c.utf8Size) 0

/-- A place in a text: lines count from one, and the column is the number of bytes between the
last line feed and the place. -/
structure Place where
  line : Nat
  column : Nat
deriving Repr, DecidableEq

/-- The place that lies `offset` bytes into `text`. -/
def placeAt (text : List Char) (offset : Nat) : Place :=
  go text 0 1 0
where
  go : List Char → Nat → Nat → Nat → Place
    | [], _, line, start => ⟨line, offset - start⟩
    | c :: rest, seen, line, start =>
      let seen' := seen + c.utf8Size
      if offset < seen' then ⟨line, offset - start⟩
      else if c = '\n' then go rest seen' (line + 1) seen'
      else go rest seen' line start

/-- The byte at which line `line` of a text starts; a line past the last has none. -/
def lineStart? (text : List Char) (line : Nat) : Option Nat :=
  go text 0 1
where
  go : List Char → Nat → Nat → Option Nat
    | text, seen, current =>
      if current = line then some seen
      else match text with
        | [] => none
        | c :: rest => go rest (seen + c.utf8Size) (if c = '\n' then current + 1 else current)

end Remap.Text
