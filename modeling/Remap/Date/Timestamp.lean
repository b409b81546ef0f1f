import Remap.Date.Reader
import Remap.Date.Writer

/-!
# Timestamps

The form of moments on the wire, such as `2024-03-05T10:30:00.5+01:00`. Any character may stand
between day and time, and a leap second is read as the last nanosecond before it.
-/

namespace Remap.Date

/-- Takes exactly `width` digits as the part of the given name. -/
def takeExact (name : String) (width : Nat) (text : List Char) :
    Except ReadFault (Nat × List Char) :=
  match takeDigits? width width text with
  | some result => .ok result
  | none => .error (.component name)

def takeMark (mark : Char) : List Char → Except ReadFault (List Char)
  | [] => .error .literal
  | c :: rest => if c = mark then .ok rest else .error .literal

def takeSeparator : List Char → Except ReadFault (List Char)
  | [] => .error (.component "separator")
  | c :: rest => if c.utf8Size = 1 then .ok rest else .error (.component "hour")

/-- Takes the fraction of a second, if there is one. -/
def takeSubsecond : List Char → Except ReadFault (Nat × List Char)
  | '.' :: rest =>
    match takeFraction? none rest with
    | some result => .ok result
    | none => .error (.component "subsecond")
  | text => .ok (0, text)

/-- Takes an offset: a `Z`, or a sign with hours and minutes. -/
def takeOffset (text : List Char) : Except ReadFault (Offset × List Char) :=
  match text with
  | 'Z' :: rest | 'z' :: rest => .ok (.utc, rest)
  | text =>
    match takeSign text with
    | (none, _) => .error (.component "offset hour")
    | (some negative, rest) => do
      let (hours, rest) ← takeExact "offset hour" 2 rest
      if 23 < hours then .error (.component "offset hour")
      let rest ← takeMark ':' rest
      let (minutes, rest) ← takeExact "offset minute" 2 rest
      if 59 < minutes then .error (.range ⟨"offset minute"⟩)
      .ok (⟨negative, hours, minutes, 0⟩, rest)

def readTimestamp (text : String) : Except ReadFault Moment := do
  let (year, rest) ← takeExact "year" 4 text.toList
  let rest ← takeMark '-' rest
  let (month, rest) ← takeExact "month" 2 rest
  if month = 0 then .error (.component "month")
  let rest ← takeMark '-' rest
  let (day, rest) ← takeExact "day" 2 rest
  let rest ← takeSeparator rest
  let (hour, rest) ← takeExact "hour" 2 rest
  let rest ← takeMark ':' rest
  let (minute, rest) ← takeExact "minute" 2 rest
  let rest ← takeMark ':' rest
  let (second, rest) ← takeExact "second" 2 rest
  let (nanosecond, rest) ← takeSubsecond rest
  let (offset, rest) ← takeOffset rest
  if !rest.isEmpty then .error .trailing
  let day ← (Day.ofMonth year month day).mapError ReadFault.range
  let leap := second = 60
  let clock ← (if leap then Clock.ofParts hour minute 59 999999999
    else Clock.ofParts hour minute second nanosecond).mapError ReadFault.range
  let moment : Moment := ⟨day, clock, offset⟩
  if leap && !moment.endsMonth then .error (.range ⟨"second"⟩)
  .ok moment

/-- Why a moment has no timestamp. -/
inductive WriteFault where
  | year
  | offsetHour
  | offsetSecond
deriving DecidableEq, Repr

def WriteFault.message (f : WriteFault) : String :=
  let part := match f with
    | year => "year"
    | offsetHour => "offset_hour"
    | offsetSecond => "offset_second"
  "The " ++ part ++ " component cannot be formatted into the requested format."

def writeTimestamp (m : Moment) : Except WriteFault String :=
  let two (n : Nat) := padded .zero 2 n
  if m.day.year < 0 ∨ 9999 < m.day.year then .error .year
  else if 23 < m.offset.hours then .error .offsetHour
  else if m.offset.seconds ≠ 0 then .error .offsetSecond
  else
    let (month, day) := m.day.monthDay
    let fraction :=
      if m.clock.nanosecond = 0 then [] else '.' :: fractionDigits m.clock.nanosecond
    let zone :=
      if m.offset.isUtc then ['Z']
      else signOf m.offset.isNegative true ++ two m.offset.hours ++ ':' :: two m.offset.minutes
    .ok <| String.ofList <|
      padded .zero 4 m.day.year.natAbs ++ '-' :: two month ++ '-' :: two day ++ 'T' ::
        two m.clock.hour ++ ':' :: two m.clock.minute ++ ':' :: two m.clock.second ++ fraction
        ++ zone

/-- The form of a date: timestamps, or a layout. -/
inductive Form where
  | timestamp
  | layout (items : List Item)

namespace Form

def parse (text : String) : Except Layout.Fault Form :=
  if text = "rfc3339" then .ok .timestamp else (Layout.parse text).map Form.layout

def read (form : Form) (text : String) : Except ReadFault Moment :=
  match form with
  | timestamp => readTimestamp text
  | layout items => readMoment items text

def write (form : Form) (m : Moment) : Except WriteFault String :=
  match form with
  | timestamp => writeTimestamp m
  | layout items => .ok (writeMoment items m)

end Form

end Remap.Date
