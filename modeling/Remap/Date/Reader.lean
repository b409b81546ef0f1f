import Remap.Date.Layout
import Remap.Date.Moment
import Remap.Text.Utf8

/-!
# Reading dates

A text is read along a layout into the parts that it gives. The parts make a moment where they
give a day, a time and an offset; else a time at the meridian, and else the start of a day.
-/

namespace Remap.Date

/-- Why a text is no date. -/
inductive ReadFault where
  | literal
  | component (name : String)
  | trailing
  | insufficient
  | range (e : OutOfRange)
deriving DecidableEq, Repr

def ReadFault.message : ReadFault → String
  | literal => "a character literal was not valid"
  | component name => "the '" ++ name ++ "' component could not be parsed"
  | trailing => "unexpected trailing characters; the end of input was expected"
  | insufficient =>
    "the \x60Parsed\x60 struct did not include enough information to construct the type"
  | range e => e.message

/-- A year as it is read: in full, or by its century and its last two digits. -/
structure YearParts where
  full : Option Int
  century : Option (Bool × Nat)
  lastTwo : Option Nat

def YearParts.none : YearParts := ⟨.none, .none, .none⟩

def YearParts.year? (y : YearParts) : Option Int :=
  match y.full, y.century, y.lastTwo with
  | some year, _, _ => some year
  | _, some (negative, century), some lastTwo =>
    let size : Int := 100 * century + lastTwo
    some (if negative then -size else size)
  | _, _, _ => .none

/-- The parts of a date that a text gives. -/
structure Parts where
  year : YearParts
  weekYear : YearParts
  month : Option Nat
  day : Option Nat
  ordinal : Option Nat
  weekday : Option Nat
  isoWeek : Option Nat
  sundayWeek : Option Nat
  mondayWeek : Option Nat
  hour : Option Nat
  hour12 : Option Nat
  afternoon : Option Bool
  minute : Option Nat
  second : Option Nat
  nanosecond : Option Nat
  offsetNegative : Bool
  offsetHour : Option Nat
  offsetMinute : Option Nat
  offsetSecond : Option Nat
  epoch : Option Int

def Parts.none : Parts :=
  ⟨.none, .none, .none, .none, .none, .none, .none, .none, .none, .none, .none, .none, .none,
    .none, .none, false, .none, .none, .none, .none⟩

namespace Parts

def day? (p : Parts) : Except ReadFault Day :=
  let wrap (d : Except OutOfRange Day) : Except ReadFault Day := d.mapError ReadFault.range
  match p.year.year?, p.ordinal, p.month, p.day with
  | some year, some ordinal, _, _ => wrap (Day.ofOrdinal year ordinal)
  | some year, _, some month, some day => wrap (Day.ofMonth year month day)
  | year, _, _, _ =>
    match p.weekYear.year?, p.isoWeek, p.weekday with
    | some year, some week, some weekday => wrap (Day.ofIsoWeek year week weekday)
    | _, _, _ =>
      match year, p.weekday, p.sundayWeek, p.mondayWeek with
      | some year, some weekday, some week, _ =>
        wrap (Day.ofPlainWeek year week ((weekday + 1) % 7))
      | some year, some weekday, _, some week => wrap (Day.ofPlainWeek year week weekday)
      | _, _, _, _ => .error .insufficient

def hour? (p : Parts) : Option Nat :=
  match p.hour, p.hour12, p.afternoon with
  | some hour, _, _ => some hour
  | _, some hour, some afternoon => some (hour % 12 + if afternoon then 12 else 0)
  | _, _, _ => .none

/-- The time of day that the parts give; a part needs those above it. -/
def clock? (p : Parts) : Except ReadFault Clock :=
  let at_ (hour minute second nanosecond : Nat) : Except ReadFault Clock :=
    (Clock.ofParts hour minute second nanosecond).mapError ReadFault.range
  match p.hour?, p.minute, p.second, p.nanosecond with
  | some hour, .none, .none, .none => at_ hour 0 0 0
  | some hour, some minute, .none, .none => at_ hour minute 0 0
  | some hour, some minute, some second, .none => at_ hour minute second 0
  | some hour, some minute, some second, some nanosecond => at_ hour minute second nanosecond
  | _, _, _, _ => .error .insufficient

def offset? (p : Parts) : Except ReadFault Offset :=
  match p.offsetHour with
  | some hour =>
    .ok ⟨p.offsetNegative, hour, p.offsetMinute.getD 0, p.offsetSecond.getD 0⟩
  | .none => .error .insufficient

def moment? (p : Parts) : Except ReadFault Moment :=
  match p.epoch with
  | some n =>
    let m := Moment.ofEpochNanoseconds n
    match p.nanosecond with
    | some nanosecond => .ok { m with clock := { m.clock with nanosecond := nanosecond } }
    | .none => .ok m
  | .none => do
    let day ← p.day?
    let clock ← p.clock?
    let offset ← p.offset?
    .ok ⟨day, clock, offset⟩

/-- The moment that the parts come closest to: without an offset it is read at the meridian, and
without a time it is the start of a day. -/
def closest? (p : Parts) : Except ReadFault Moment :=
  match p.moment? with
  | .ok m => .ok m
  | .error _ =>
    match p.day?, p.clock? with
    | .ok day, .ok clock => .ok ⟨day, clock, .utc⟩
    | .ok day, .error _ => .ok ⟨day, .midnight, .utc⟩
    | .error e, _ => .error e

end Parts

/-! ## Taking parts off a text -/

def numberOf (digits : List Char) : Nat :=
  digits.foldl (fun n c => 10 * n + (c.toNat - 48)) 0

/-- Takes between `least` and `most` digits, as many as there are. -/
def takeDigits? (least most : Nat) (text : List Char) : Option (Nat × List Char) :=
  let digits := (text.take most).takeWhile Char.isDigit
  if digits.length < least then none else some (numberOf digits, text.drop digits.length)

/-- Takes a number of the given width; padded with spaces it may be shorter by as many. -/
def takeNumber? (padding : Padding) (least most : Nat) (text : List Char) :
    Option (Nat × List Char) :=
  match padding with
  | .zero => takeDigits? least most text
  | .none => takeDigits? 1 most text
  | .space =>
    let spaces := ((text.take (least - 1)).takeWhile (· == ' ')).length
    takeDigits? (least - spaces) (most - spaces) (text.drop spaces)

def takeSign : List Char → Option Bool × List Char
  | '-' :: rest => (some true, rest)
  | '+' :: rest => (some false, rest)
  | text => (none, text)

/-- Takes the first of some names that stands in front, with its number. -/
def takeName? (exactCase : Bool) (names : List (String × Nat)) (text : List Char) :
    Option (Nat × List Char) :=
  names.findSome? fun (name, n) =>
    let wanted := name.toList
    let found := text.take wanted.length
    let same :=
      if exactCase then found == wanted else found.map Char.toLower == wanted.map Char.toLower
    if same then some (n, text.drop wanted.length) else none

/-- Takes the fraction of a second, in nanoseconds; digits past the ninth are passed over. -/
def takeFraction? (digits : Option Nat) (text : List Char) : Option (Nat × List Char) :=
  let found := match digits with
    | some n => (text.take n).takeWhile Char.isDigit
    | none => text.takeWhile Char.isDigit
  if found.length < digits.getD 1 then none
  else
    let kept := found.take 9
    some (numberOf kept * Nat.pow 10 (9 - kept.length), text.drop found.length)

/-- The names of a list with their numbers, counted from `first`. -/
def numbered (first : Nat) (names : List String) : List (String × Nat) := names.zipIdx first

/-- The first three letters of names. -/
def shortNames (names : List String) : List String :=
  names.map fun name => String.ofList (name.toList.take 3)

/-- The digits that days of the week are written with, with the days from Monday on. -/
def weekdayDigits (style : WeekdayStyle) (fromOne : Bool) : List (String × Nat) :=
  (List.range 7).map fun day =>
    let base := match style with
      | .fromSunday => (day + 1) % 7
      | _ => day
    (toString (if fromOne then base + 1 else base), day)

def takeYear? (padding : Padding) (style : YearStyle) (signed : Bool) (text : List Char) :
    Option ((Bool × Nat) × List Char) :=
  let withSign (least most leastSigned : Nat) : Option ((Bool × Nat) × List Char) :=
    match takeSign text with
    | (some negative, rest) =>
      (takeNumber? padding leastSigned most rest).map fun (n, rest) => ((negative, n), rest)
    | (none, rest) =>
      if signed then none
      else (takeNumber? padding least most rest).map fun (n, rest) => ((false, n), rest)
  match style with
  | .full => withSign 4 4 4
  | .century => withSign 1 2 2
  | .lastTwo => (takeNumber? padding 2 2 text).map fun (n, rest) => ((false, n), rest)

/-- Passes over some bytes of a text, which must end between characters. -/
def dropBytes? : Nat → List Char → Option (List Char)
  | 0, text => some text
  | _ + 1, [] => none
  | count, c :: rest => if c.utf8Size ≤ count then dropBytes? (count - c.utf8Size) rest else none

def yearOf? (negative : Bool) (n : Nat) : Option Int :=
  let year : Int := if negative then -n else n
  if year < minYear ∨ maxYear < year then none else some year

def YearParts.set? (y : YearParts) (style : YearStyle) (negative : Bool) (n : Nat) :
    Option YearParts :=
  match style with
  | .full => (yearOf? negative n).map fun year => { y with full := some year }
  | .century => some { y with century := some (negative, n) }
  | .lastTwo => some { y with lastTwo := some n }

namespace Component

def name : Component → String
  | day _ => "day"
  | month .. => "month"
  | ordinal _ => "ordinal"
  | weekday .. => "weekday"
  | week .. => "week number"
  | year .. => "year"
  | hour .. => "hour"
  | minute _ => "minute"
  | second _ => "second"
  | fraction _ => "subsecond"
  | period .. => "period"
  | offsetHour .. => "offset hour"
  | offsetMinute _ => "offset minute"
  | offsetSecond _ => "offset second"
  | epoch .. => "unix_timestamp"
  | skipped _ => "ignore"
  | finish _ => "end"

/-- A number that must lie within bounds. -/
def within (low high : Nat) (n : Nat) : Option Nat := if low ≤ n ∧ n ≤ high then some n else none

def take? (p : Parts) (c : Component) (text : List Char) : Option (Parts × List Char) :=
  let number (padding : Padding) (width low high : Nat) (set : Nat → Parts) := do
    let (n, rest) ← takeNumber? padding width width text
    let n ← within low high n
    some (set n, rest)
  match c with
  | day padding => number padding 2 1 31 fun n => { p with day := some n }
  | month padding .number _ => number padding 2 1 12 fun n => { p with month := some n }
  | month _ style exactCase => do
    let names := if style = .long then monthNames else shortNames monthNames
    let (n, rest) ← takeName? exactCase (numbered 1 names) text
    some ({ p with month := some n }, rest)
  | ordinal padding => number padding 3 1 366 fun n => { p with ordinal := some n }
  | weekday style fromOne exactCase => do
    let names := match style with
      | .long => numbered 0 weekdayNames
      | .short => numbered 0 (shortNames weekdayNames)
      | style => weekdayDigits style fromOne
    let (n, rest) ← takeName? exactCase names text
    some ({ p with weekday := some n }, rest)
  | week padding .iso => number padding 2 1 53 fun n => { p with isoWeek := some n }
  | week padding .sunday => number padding 2 0 53 fun n => { p with sundayWeek := some n }
  | week padding .monday => number padding 2 0 53 fun n => { p with mondayWeek := some n }
  | year padding style ofWeek signed => do
    let ((negative, n), rest) ← takeYear? padding style signed text
    if ofWeek then
      let y ← p.weekYear.set? style negative n
      some ({ p with weekYear := y }, rest)
    else
      let y ← p.year.set? style negative n
      some ({ p with year := y }, rest)
  | hour padding false => number padding 2 0 23 fun n => { p with hour := some n }
  | hour padding true => number padding 2 1 12 fun n => { p with hour12 := some n }
  | minute padding => number padding 2 0 59 fun n => { p with minute := some n }
  | second padding => number padding 2 0 60 fun n => { p with second := some n }
  | fraction digits => do
    let (n, rest) ← takeFraction? digits text
    some ({ p with nanosecond := some n }, rest)
  | period upper exactCase => do
    let names := if upper then [("AM", 0), ("PM", 1)] else [("am", 0), ("pm", 1)]
    let (n, rest) ← takeName? exactCase names text
    some ({ p with afternoon := some (n == 1) }, rest)
  | offsetHour padding signed => do
    let (sign, rest) := takeSign text
    let (n, rest) ← takeNumber? padding 2 2 rest
    let n ← within 0 25 n
    if sign.isNone && signed then none
    else some ({ p with offsetHour := some n, offsetNegative := sign.getD false }, rest)
  | offsetMinute padding => number padding 2 0 59 fun n => { p with offsetMinute := some n }
  | offsetSecond padding => number padding 2 0 59 fun n => { p with offsetSecond := some n }
  | epoch perSecond signed => do
    let most := match perSecond with
      | 1 => 14
      | 1000 => 17
      | 1000000 => 20
      | _ => 23
    let (sign, rest) := takeSign text
    let (n, rest) ← takeDigits? 1 most rest
    let size : Int := n * (1000000000 / perSecond)
    let total := if sign == some true then -size else size
    if sign.isNone && signed then none
    else if total < Moment.minNanoseconds ∨ Moment.maxNanoseconds < total then none
    else some ({ p with epoch := some total }, rest)
  | skipped count => (dropBytes? count text).map fun rest => (p, rest)
  | finish discard => if discard || text.isEmpty then some (p, []) else none

end Component

mutual

def Item.read (p : Parts) (text : List Char) : Item → Except ReadFault (Parts × List Char)
  | .literal wanted =>
    if wanted.isPrefixOf text then .ok (p, text.drop wanted.length) else .error .literal
  | .component c =>
    match c.take? p text with
    | some result => .ok result
    | none => .error (.component c.name)
  | .group items => Item.readAll p text items
  | .optional item =>
    match Item.read p text item with
    | .ok result => .ok result
    | .error _ => .ok (p, text)
  | .first choices => Item.readFirst p text none choices

/-- The parts that items take off a text, one after the other. -/
def Item.readAll (p : Parts) (text : List Char) : List Item → Except ReadFault (Parts × List Char)
  | [] => .ok (p, text)
  | item :: rest => do
    let (p, text) ← Item.read p text item
    Item.readAll p text rest

/-- The parts that the first fitting item takes off a text. If none fits, the fault of the first
is reported. -/
def Item.readFirst (p : Parts) (text : List Char) (fault : Option ReadFault) :
    List Item → Except ReadFault (Parts × List Char)
  | [] =>
    match fault with
    | some fault => .error fault
    | none => .ok (p, text)
  | item :: rest =>
    match Item.read p text item with
    | .ok result => .ok result
    | .error e => Item.readFirst p text (fault.or (some e)) rest

end

def readMoment (layout : List Item) (text : String) : Except ReadFault Moment := do
  let (p, rest) ← Item.readAll Parts.none text.toList layout
  if rest.isEmpty then p.closest? else .error .trailing

end Remap.Date
