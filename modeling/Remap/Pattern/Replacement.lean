import Remap.Pattern.Search

/-!
# Replacing matches

A replacement is text in which `$name`, `$number` and the same in braces stand for what a group
matched. A doubled dollar is a dollar, and so is one that nothing follows.
-/

namespace Remap.Pattern

/-- A part of a replacement. -/
inductive Part where
  | literal (c : Char)
  | number (n : Nat)
  | name (s : String)
deriving DecidableEq, Repr

/-- Whether a character may stand in a reference without braces. -/
def isReferenceChar (c : Char) : Bool := c.isAlphanum || c == '_'

/-- What a reference means: a number, where it is one of 64 bits, or a name. -/
def reference (text : List Char) : Part :=
  let digits := match text with
    | '+' :: digits => digits
    | digits => digits
  if !digits.isEmpty && digits.all Decimal.isDigit && Decimal.ofDigits digits < UInt64.size then
    .number (Decimal.ofDigits digits)
  else .name (String.ofList text)

/-- The parts of a replacement; `fuel` bounds its length. -/
def replacementParts : Nat → List Char → List Part
  | 0, _ => []
  | _, [] => []
  | fuel + 1, '$' :: rest =>
    match rest with
    | '$' :: rest => .literal '$' :: replacementParts fuel rest
    | '\x7b' :: inner =>
      match inner.span (· != '\x7d') with
      | (name, _ :: rest) => reference name :: replacementParts fuel rest
      | (_, []) => .literal '$' :: replacementParts fuel ('\x7b' :: inner)
    | rest =>
      let (name, after) := rest.span isReferenceChar
      if name.isEmpty then .literal '$' :: replacementParts fuel rest
      else reference name :: replacementParts fuel after
  | fuel + 1, c :: rest => .literal c :: replacementParts fuel rest

def Subject.slice (t : Subject) (start finish : Nat) : List Char :=
  (t.extract start finish).toList

/-- What a group matched; nothing if it took no part. -/
def Match.group (found : Match) (t : Subject) (number : Nat) : List Char :=
  if number = 0 then t.slice found.start found.finish
  else match (found.slots[2 * number]?).join, (found.slots[2 * number + 1]?).join with
    | some start, some finish => t.slice start finish
    | _, _ => []

def Part.expand (names : List (String × Nat)) (t : Subject) (found : Match) : Part → List Char
  | .literal c => [c]
  | .number n => found.group t n
  | .name s =>
    match names.find? (·.1 == s) with
    | some (_, n) => found.group t n
    | none => []

/-- The text from `start` on, with each match replaced. -/
def replaceMatches (names : List (String × Nat)) (parts : List Part) (t : Subject) :
    Nat → List Match → List Char
  | start, [] => t.slice start t.size
  | start, found :: rest =>
    t.slice start found.start ++ parts.flatMap (Part.expand names t found)
      ++ replaceMatches names parts t found.finish rest

def Matcher.replaceAll (m : Matcher) (replacement text : String) : String :=
  let t : Subject := text.toList.toArray
  let chars := replacement.toList
  String.ofList
    (replaceMatches m.pattern.names (replacementParts chars.length chars) t 0 (m.allMatches t))

end Remap.Pattern
