import Remap.Date.Calendar

/-!
# Moments

A moment is a day, a time of day and the distance from the meridian at which they are read.
-/

namespace Remap.Date

/-- A time of day. -/
structure Clock where
  hour : Nat
  minute : Nat
  second : Nat
  nanosecond : Nat
deriving DecidableEq, Repr

namespace Clock

def midnight : Clock := ⟨0, 0, 0, 0⟩

def ofParts (hour minute second nanosecond : Nat) : Except OutOfRange Clock :=
  if 23 < hour then .error ⟨"hour"⟩
  else if 59 < minute then .error ⟨"minute"⟩
  else if 59 < second then .error ⟨"second"⟩
  else .ok ⟨hour, minute, second, nanosecond⟩

/-- The whole seconds since the start of the day. -/
def seconds (c : Clock) : Nat := c.hour * 3600 + c.minute * 60 + c.second

/-- The time some seconds after the start of a day. -/
def ofSeconds (seconds nanosecond : Nat) : Clock :=
  ⟨seconds / 3600, seconds / 60 % 60, seconds % 60, nanosecond⟩

end Clock

/-- The distance from the meridian: its direction and its size. -/
structure Offset where
  negative : Bool
  hours : Nat
  minutes : Nat
  seconds : Nat
deriving DecidableEq, Repr

namespace Offset

def utc : Offset := ⟨false, 0, 0, 0⟩

def isUtc (o : Offset) : Bool := o.hours == 0 && o.minutes == 0 && o.seconds == 0

/-- Whether clocks are behind those of the meridian. -/
def isNegative (o : Offset) : Bool := o.negative && !o.isUtc

def total (o : Offset) : Int :=
  let size : Int := o.hours * 3600 + o.minutes * 60 + o.seconds
  if o.negative then -size else size

end Offset

/-- A day and a time of day, read at an offset. -/
structure Moment where
  day : Day
  clock : Clock
  offset : Offset
deriving DecidableEq, Repr

namespace Moment

/-- The whole seconds since the start of 1970 at the meridian, rounded down. -/
def epochSeconds (m : Moment) : Int := m.day.sinceEpoch * 86400 + m.clock.seconds - m.offset.total

/-- The nanoseconds since the start of 1970 at the meridian. -/
def epochNanoseconds (m : Moment) : Int := m.epochSeconds * 1000000000 + m.clock.nanosecond

/-- The moment that lies a number of nanoseconds after the start of 1970, read at the meridian. -/
def ofEpochNanoseconds (n : Int) : Moment :=
  let seconds := n / 1000000000
  ⟨.ofEpoch (seconds / 86400), .ofSeconds (seconds % 86400).toNat (n % 1000000000).toNat, .utc⟩

/-- The least number of nanoseconds for which there is a moment. -/
def minNanoseconds : Int := (Day.mk minYear 1).sinceEpoch * 86400000000000

/-- The greatest number of nanoseconds for which there is a moment. -/
def maxNanoseconds : Int := ((Day.mk maxYear 365).sinceEpoch + 1) * 86400000000000 - 1

/-- Whether a moment may stand for a leap second: it is the last of the last day of a month at the
meridian. -/
def endsMonth (m : Moment) : Bool :=
  let utc := ofEpochNanoseconds m.epochNanoseconds
  let (month, day) := utc.day.monthDay
  utc.clock == ⟨23, 59, 59, 999999999⟩ && day == daysInMonth utc.day.year month

end Moment

end Remap.Date
