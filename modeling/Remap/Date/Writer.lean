import Remap.Date.Layout
import Remap.Date.Moment

/-!
# Writing dates

A moment is written along a layout. An optional item is always written, and of several choices the
first.
-/

namespace Remap.Date

def digitsOf (n : Nat) : List Char := (toString n).toList

/-- A number filled up to a width. -/
def padded (padding : Padding) (width n : Nat) : List Char :=
  let digits := digitsOf n
  match padding with
  | .none => digits
  | .zero => List.replicate (width - digits.length) '0' ++ digits
  | .space => List.replicate (width - digits.length) ' ' ++ digits

/-- A minus sign, or a plus sign where a sign must be shown. -/
def signOf (negative shown : Bool) : List Char :=
  if negative then ['-'] else if shown then ['+'] else []

/-- The nanoseconds of a time as digits without zeros at the end, but for one. -/
def fractionDigits (nanosecond : Nat) : List Char :=
  let digits := padded .zero 9 nanosecond
  let kept := (digits.reverse.dropWhile (· == '0')).reverse
  if kept.isEmpty then ['0'] else kept

def nameAt (names : List String) (i : Nat) : List Char := ((names[i]?).getD "").toList

namespace Component

def writeYear (padding : Padding) (style : YearStyle) (signed : Bool) (year : Int) : List Char :=
  let size := year.natAbs
  match style with
  | .full => signOf (year < 0) signed ++ padded padding 4 size
  | .century => signOf (year < 0) signed ++ padded padding 2 (size / 100)
  | .lastTwo => padded padding 2 (size % 100)

def write (m : Moment) : Component → List Char
  | day padding => padded padding 2 m.day.monthDay.2
  | month padding .number _ => padded padding 2 m.day.monthDay.1
  | month _ .long _ => nameAt monthNames (m.day.monthDay.1 - 1)
  | month _ .short _ => (nameAt monthNames (m.day.monthDay.1 - 1)).take 3
  | ordinal padding => padded padding 3 m.day.ordinal
  | weekday .long _ _ => nameAt weekdayNames m.day.weekday
  | weekday .short _ _ => (nameAt weekdayNames m.day.weekday).take 3
  | weekday .fromSunday fromOne _ =>
    digitsOf (m.day.weekdayFromSunday + if fromOne then 1 else 0)
  | weekday .fromMonday fromOne _ => digitsOf (m.day.weekday + if fromOne then 1 else 0)
  | week padding .iso => padded padding 2 m.day.isoWeek.2
  | week padding .sunday => padded padding 2 m.day.sundayWeek
  | week padding .monday => padded padding 2 m.day.mondayWeek
  | year padding style ofWeek signed =>
    writeYear padding style signed (if ofWeek then m.day.isoWeek.1 else m.day.year)
  | hour padding false => padded padding 2 m.clock.hour
  | hour padding true => padded padding 2 ((m.clock.hour + 11) % 12 + 1)
  | minute padding => padded padding 2 m.clock.minute
  | second padding => padded padding 2 m.clock.second
  | fraction none => fractionDigits m.clock.nanosecond
  | fraction (some digits) => (padded .zero 9 m.clock.nanosecond).take digits
  | period upper _ =>
    (if m.clock.hour < 12 then (if upper then "AM" else "am")
      else if upper then "PM" else "pm").toList
  | offsetHour padding signed =>
    signOf m.offset.isNegative signed ++ padded padding 2 m.offset.hours
  | offsetMinute padding => padded padding 2 m.offset.minutes
  | offsetSecond padding => padded padding 2 m.offset.seconds
  | epoch perSecond signed =>
    let total := m.epochNanoseconds
    let size := if perSecond = 1 then m.epochSeconds.natAbs
      else total.natAbs / (1000000000 / perSecond)
    signOf (total < 0) signed ++ digitsOf size
  | skipped _ | finish _ => []

end Component

mutual

def Item.write (m : Moment) : Item → List Char
  | .literal text => text
  | .component c => c.write m
  | .group items => Item.writeAll m items
  | .optional item => Item.write m item
  | .first [] => []
  | .first (item :: _) => Item.write m item

def Item.writeAll (m : Moment) : List Item → List Char
  | [] => []
  | item :: rest => Item.write m item ++ Item.writeAll m rest

end

def writeMoment (layout : List Item) (m : Moment) : String :=
  String.ofList (Item.writeAll m layout)

end Remap.Date
