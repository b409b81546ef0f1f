import Remap.Text.Basic

/-!
# Date layouts

A layout sets out a date: literal text, and components in brackets such as `[month repr:long]`.
`[[` stands for a bracket. `[optional [...]]` may be absent, and `[first [...] [...]]` is the first
that fits.
-/

namespace Remap.Date

/-- How a number is filled up to its width. -/
inductive Padding where
  | zero
  | space
  | none
deriving DecidableEq, Repr

/-- How a month is written. -/
inductive MonthStyle where
  | number
  | long
  | short
deriving DecidableEq, Repr

/-- How a day of the week is written. -/
inductive WeekdayStyle where
  | long
  | short
  | fromSunday
  | fromMonday
deriving DecidableEq, Repr

/-- How weeks are counted. -/
inductive WeekStyle where
  | iso
  | sunday
  | monday
deriving DecidableEq, Repr

/-- Which part of a year is written. -/
inductive YearStyle where
  | full
  | century
  | lastTwo
deriving DecidableEq, Repr

/-- A part of a date. -/
inductive Component where
  | day (padding : Padding)
  | month (padding : Padding) (style : MonthStyle) (exactCase : Bool)
  | ordinal (padding : Padding)
  | weekday (style : WeekdayStyle) (fromOne exactCase : Bool)
  | week (padding : Padding) (style : WeekStyle)
  | year (padding : Padding) (style : YearStyle) (ofWeek signed : Bool)
  | hour (padding : Padding) (twelve : Bool)
  | minute (padding : Padding)
  | second (padding : Padding)
  /-- The fraction of a second; without a count, as many digits as there are. -/
  | fraction (digits : Option Nat)
  | period (upper exactCase : Bool)
  | offsetHour (padding : Padding) (signed : Bool)
  | offsetMinute (padding : Padding)
  | offsetSecond (padding : Padding)
  /-- The time since 1970 in units of which a second has the given number. -/
  | epoch (perSecond : Nat) (signed : Bool)
  /-- Text of the given number of bytes that is passed over. -/
  | skipped (count : Nat)
  /-- The end of the text, or all that is left of it. -/
  | finish (discard : Bool)
deriving DecidableEq, Repr

/-- An item of a layout. -/
inductive Item where
  | literal (text : List Char)
  | component (c : Component)
  | group (items : List Item)
  | optional (item : Item)
  | first (choices : List Item)
deriving Repr, Inhabited

namespace Layout

/-- Why a text is no layout. Positions count bytes. -/
inductive Fault where
  | unclosed (at_ : Nat)
  | unknownComponent (name : String) (at_ : Nat)
  | badModifier (text : String) (at_ : Nat)
  | missingName (at_ : Nat)
  | missingModifier (name : String) (at_ : Nat)
  | expected (what : String) (at_ : Nat)
deriving DecidableEq, Repr

def Fault.message : Fault → String
  | unclosed i => "unclosed opening bracket at byte index " ++ toString i
  | unknownComponent name i =>
    "invalid component name \x60" ++ name ++ "\x60 at byte index " ++ toString i
  | badModifier text i => "invalid modifier \x60" ++ text ++ "\x60 at byte index " ++ toString i
  | missingName i => "missing component name at byte index " ++ toString i
  | missingModifier name i =>
    "missing required modifier \x60" ++ name ++ "\x60 for component at byte index " ++ toString i
  | expected what i => "expected " ++ what ++ " at byte index " ++ toString i

/-! ## Tokens -/

/-- A token with the byte it starts at. -/
inductive Token where
  | literal (text : List Char)
  | opening (start : Nat)
  | closing (start : Nat)
  | space (text : List Char) (start : Nat)
  | word (text : List Char) (start : Nat)

/-- Whether a character separates words inside brackets. -/
def isSpace (c : Char) : Bool := c == ' ' || c == '\t' || c == '\n' || c == '\r' || c == '\x0c'

/-- The tokens of a text that starts at byte `start` inside `depth` brackets; `fuel` bounds its
length. A doubled opening bracket is two tokens and opens nothing. -/
def tokens : Nat → Nat → Nat → List Char → List Token
  | 0, _, _, _ => []
  | _, _, _, [] => []
  | fuel + 1, start, depth, '[' :: rest =>
    match rest with
    | '[' :: rest => .opening start :: .opening (start + 1) :: tokens fuel (start + 2) depth rest
    | rest => .opening start :: tokens fuel (start + 1) (depth + 1) rest
  | fuel + 1, start, 0, c :: rest =>
    let (more, rest) := rest.span fun c => c != '[' && c != ']'
    .literal (c :: more) :: tokens fuel (start + Text.byteLength (c :: more)) 0 rest
  | fuel + 1, start, depth + 1, ']' :: rest => .closing start :: tokens fuel (start + 1) depth rest
  | fuel + 1, start, depth + 1, c :: rest =>
    let blank := isSpace c
    let (more, rest) := rest.span fun c =>
      c != '[' && c != ']' && c != '\\' && isSpace c == blank
    let token := if blank then Token.space (c :: more) start else .word (c :: more) start
    token :: tokens fuel (start + Text.byteLength (c :: more)) (depth + 1) rest

/-! ## Components -/

/-- A modifier of a component, with the bytes its key and its value start at. -/
structure Modifier where
  key : String
  value : String
  keyStart : Nat
  valueStart : Nat

/-- A text in lower case, as far as ASCII goes. -/
def lower (text : String) : String := String.ofList (text.toList.map Char.toLower)

/-- The values that the modifiers of a component may take; none for a number. -/
def modifiersOf? (component : String) : Option (List (String × List String)) :=
  let padding := ("padding", ["space", "zero", "none"])
  let flag (name : String) := (name, ["true", "false"])
  let sign := ("sign", ["automatic", "mandatory"])
  match component with
  | "day" | "minute" | "second" | "ordinal" | "offset_minute" | "offset_second" => some [padding]
  | "end" => some [("trailing_input", ["prohibit", "discard"])]
  | "hour" => some [padding, ("repr", ["12", "24"])]
  | "ignore" => some [("count", [])]
  | "month" => some [padding, ("repr", ["numerical", "long", "short"]), flag "case_sensitive"]
  | "offset_hour" => some [sign, padding]
  | "period" => some [("case", ["lower", "upper"]), flag "case_sensitive"]
  | "subsecond" => some [("digits", ["1", "2", "3", "4", "5", "6", "7", "8", "9", "1+"])]
  | "unix_timestamp" =>
    some [("precision", ["second", "millisecond", "microsecond", "nanosecond"]), sign]
  | "weekday" =>
    some
      [("repr", ["short", "long", "sunday", "monday"]), flag "one_indexed", flag "case_sensitive"]
  | "week_number" => some [padding, ("repr", ["iso", "sunday", "monday"])]
  | "year" =>
    some
      [padding, ("repr", ["full", "century", "last_two"]), ("range", ["standard", "extended"]),
        ("base", ["calendar", "iso_week"]), sign]
  | _ => none

/-- The number that a count modifier gives. -/
def countOf? (text : String) : Option Nat :=
  let digits := match text.toList with
    | '+' :: digits => digits
    | digits => digits
  if digits.isEmpty || !digits.all Char.isDigit then none
  else
    let n := digits.foldl (fun n c => 10 * n + (c.toNat - 48)) 0
    if 0 < n ∧ n < UInt16.size then some n else none

/-- Checks modifiers in order against the values they may take. -/
def checkModifiers (allowed : List (String × List String)) : List Modifier → Except Fault Unit
  | [] => .ok ()
  | m :: ms =>
    match allowed.find? fun (key, _) => key == lower m.key with
    | none => .error (.badModifier m.key m.keyStart)
    | some (key, values) =>
      let good :=
        if key == "count" then (countOf? m.value).isSome else values.contains (lower m.value)
      if good then checkModifiers allowed ms else .error (.badModifier m.value m.valueStart)

/-- The last value given for a key, in lower case. -/
def valueOf? (key : String) (ms : List Modifier) : Option String :=
  (ms.reverse.find? fun m => lower m.key == key).map fun m => lower m.value

def paddingOf (ms : List Modifier) : Padding :=
  match valueOf? "padding" ms with
  | some "space" => .space
  | some "none" => .none
  | _ => .zero

def componentOf? (name : String) (ms : List Modifier) : Option Component :=
  let padding := paddingOf ms
  let repr := valueOf? "repr" ms
  let exactCase := valueOf? "case_sensitive" ms != some "false"
  let signed := valueOf? "sign" ms == some "mandatory"
  match name with
  | "day" => some (.day padding)
  | "end" => some (.finish (valueOf? "trailing_input" ms == some "discard"))
  | "hour" => some (.hour padding (repr == some "12"))
  | "ignore" => ((valueOf? "count" ms).bind countOf?).map Component.skipped
  | "minute" => some (.minute padding)
  | "month" =>
    let style := match repr with
      | some "long" => .long
      | some "short" => .short
      | _ => .number
    some (.month padding style exactCase)
  | "offset_hour" => some (.offsetHour padding signed)
  | "offset_minute" => some (.offsetMinute padding)
  | "offset_second" => some (.offsetSecond padding)
  | "ordinal" => some (.ordinal padding)
  | "period" => some (.period (valueOf? "case" ms != some "lower") exactCase)
  | "second" => some (.second padding)
  | "subsecond" =>
    some (.fraction ((valueOf? "digits" ms).bind fun d => if d == "1+" then none else countOf? d))
  | "unix_timestamp" =>
    let perSecond := match valueOf? "precision" ms with
      | some "millisecond" => 1000
      | some "microsecond" => 1000000
      | some "nanosecond" => 1000000000
      | _ => 1
    some (.epoch perSecond signed)
  | "weekday" =>
    let style := match repr with
      | some "short" => .short
      | some "sunday" => .fromSunday
      | some "monday" => .fromMonday
      | _ => .long
    some (.weekday style (valueOf? "one_indexed" ms != some "false") exactCase)
  | "week_number" =>
    let style := match repr with
      | some "sunday" => .sunday
      | some "monday" => .monday
      | _ => .iso
    some (.week padding style)
  | "year" =>
    let style := match repr with
      | some "century" => .century
      | some "last_two" => .lastTwo
      | _ => .full
    some (.year padding style (valueOf? "base" ms == some "iso_week") signed)
  | _ => none

/-- The component of a name, which starts at byte `start`. -/
def component (name : String) (start : Nat) (ms : List Modifier) : Except Fault Component :=
  match modifiersOf? (lower name) with
  | none => .error (.unknownComponent name start)
  | some allowed => do
    checkModifiers allowed ms
    match componentOf? (lower name) ms with
    | some c => .ok c
    | none => .error (.missingModifier "count" start)

/-! ## Items -/

def readModifiers : List Token → Except Fault (List Modifier × List Token)
  | .space _ _ :: .opening start :: _ => .error (.badModifier "[" start)
  | .space _ _ :: .word text start :: rest =>
    let (key, value) := text.span (· != ':')
    match value with
    | [] => .error (.badModifier (String.ofList text) start)
    | _ :: value =>
      if key.isEmpty then .error (.badModifier "" start)
      else if value.isEmpty then .error (.badModifier "" (start + Text.byteLength text - 1))
      else do
        let valueStart := start + Text.byteLength key + 1
        let m : Modifier := ⟨String.ofList key, String.ofList value, start, valueStart⟩
        let (ms, rest) ← readModifiers rest
        .ok (m :: ms, rest)
  | .space _ _ :: rest => .ok ([], rest)
  | rest => .ok ([], rest)

/-- The tokens behind a closing bracket; the bracket at byte `opened` needs one. -/
def close (opened : Nat) : List Token → Except Fault (List Token)
  | .closing _ :: rest => .ok rest
  | _ => .error (.unclosed opened)

/-- Tokens without white space in front. -/
def dropSpace : List Token → List Token
  | .space _ _ :: rest => rest
  | rest => rest

/-- An item, or what is wrong with the components in it. Brackets are matched before the components
inside them are looked at. -/
abbrev Draft := Except Fault Item

def groupOf (drafts : List Draft) : Draft := Item.group <$> drafts.mapM id

/-- Settles an item that is inside no other. -/
def settle (nested : Bool) (draft : Draft) : Except Fault Draft :=
  if nested then .ok draft else draft.map .ok

mutual

/-- The items in front of tokens, inside brackets up to the closing one; `fuel` bounds their
number. -/
def readItems : Nat → Bool → List Token → Except Fault (List Draft × List Token)
  | 0, _, rest => .ok ([], rest)
  | _, _, [] => .ok ([], [])
  | fuel + 1, nested, token :: rest =>
    let literal (text : List Char) := do
      let (items, rest) ← readItems fuel nested rest
      .ok (.ok (.literal text) :: items, rest)
    match token with
    | .literal text => literal text
    | .word text _ => literal text
    | .space text _ => literal text
    | .closing start =>
      if nested then .ok ([], .closing start :: rest) else literal [']']
    | .opening start =>
      match rest with
      | .opening _ :: rest => do
        let (items, rest) ← readItems fuel nested rest
        .ok (.ok (.literal ['[']) :: items, rest)
      | rest => do
        let (item, rest) ← readComponent fuel start rest
        let item ← settle nested item
        let (items, rest) ← readItems fuel nested rest
        .ok (item :: items, rest)

/-- The component behind the bracket at byte `opened`. -/
def readComponent : Nat → Nat → List Token → Except Fault (Draft × List Token)
  | 0, opened, _ => .error (.unclosed opened)
  | fuel + 1, opened, tokens =>
    let nameless := match tokens with
      | .space _ start :: _ => start
      | _ => opened
    match dropSpace tokens with
    | .word name start :: rest =>
      let last := start + Text.byteLength name - 1
      let behind (k : Nat → Except Fault (Draft × List Token)) :
          Except Fault (Draft × List Token) :=
        match rest with
        | .space text start :: _ => k (start + Text.byteLength text - 1)
        | _ => .error (.expected ("whitespace after \x60" ++ String.ofList name ++ "\x60") last)
      if name = "optional".toList then
        behind fun space => do
          let (items, rest) ← readGroup fuel space (dropSpace rest)
          let rest ← close opened rest
          .ok (Item.optional <$> groupOf items, rest)
      else if name = "first".toList then
        behind fun space => do
          let (choices, rest) ← readChoices fuel space (dropSpace rest)
          let rest ← close opened rest
          .ok (Item.first <$> choices.mapM id, rest)
      else do
        let (ms, rest) ← readModifiers rest
        let rest ← close opened rest
        .ok (Item.component <$> component (String.ofList name) start ms, rest)
    | _ => .error (.missingName nameless)

/-- The items of a bracket of their own, behind white space whose last byte is `space`. -/
def readGroup : Nat → Nat → List Token → Except Fault (List Draft × List Token)
  | 0, space, _ => .error (.expected "opening bracket" space)
  | fuel + 1, space, tokens =>
    match tokens with
    | .opening opened :: rest => do
      let (items, rest) ← readItems fuel true rest
      let rest ← close opened rest
      .ok (items, dropSpace rest)
    | _ => .error (.expected "opening bracket" space)

/-- The groups in front of tokens. -/
def readChoices : Nat → Nat → List Token → Except Fault (List Draft × List Token)
  | 0, _, tokens => .ok ([], tokens)
  | fuel + 1, space, tokens =>
    match readGroup fuel space tokens with
    | .ok (items, rest) => do
      let (choices, rest) ← readChoices fuel space rest
      .ok (groupOf items :: choices, rest)
    | .error _ => .ok ([], tokens)

end

def parse (text : String) : Except Fault (List Item) := do
  let chars := text.toList
  let tokens := tokens (chars.length + 1) 0 0 chars
  let (items, _) ← readItems (4 * tokens.length + 4) false tokens
  items.mapM id

end Layout

end Remap.Date
