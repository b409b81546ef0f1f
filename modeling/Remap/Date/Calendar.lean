/-!
# The calendar

Days of the Gregorian calendar, carried on before its introduction. A day is given by its year and
its number in the year; months, weeks and the count of days since 1970 follow.
-/

namespace Remap.Date

def monthNames : List String :=
  ["January", "February", "March", "April", "May", "June", "July", "August", "September",
    "October", "November", "December"]

/-- The full names of the days of the week, from Monday on. -/
def weekdayNames : List String :=
  ["Monday", "Tuesday", "Wednesday", "Thursday", "Friday", "Saturday", "Sunday"]

/-- Whether a year has 366 days. -/
def isLeap (year : Int) : Bool := year % 4 = 0 ∧ (year % 100 ≠ 0 ∨ year % 400 = 0)

def daysInYear (year : Int) : Nat := if isLeap year then 366 else 365

def monthLengths (year : Int) : List Nat :=
  [31, if isLeap year then 29 else 28, 31, 30, 31, 30, 31, 31, 30, 31, 30, 31]

/-- How many days a month has, where January is month one. -/
def daysInMonth (year : Int) (month : Nat) : Nat := ((monthLengths year)[month - 1]?).getD 0

def minYear : Int := -9999

def maxYear : Int := 9999

/-- A part of a date or time that lies outside its range. -/
structure OutOfRange where
  part : String
deriving DecidableEq, Repr

/-- The wording of a part outside its range. -/
def OutOfRange.message (e : OutOfRange) : String := e.part ++ " was not in range"

/-- A day: its year, and its number in the year from one on. -/
structure Day where
  year : Int
  ordinal : Nat
deriving DecidableEq, Repr

/-- Days before the first of January of a year, counted from the first of January of year one. -/
def daysBeforeYear (year : Int) : Int :=
  let y := year - 1
  365 * y + y / 4 - y / 100 + y / 400

/-- The number of the first of January 1970 in that count. -/
def epochDays : Int := daysBeforeYear 1970

namespace Day

def ofOrdinal (year : Int) (ordinal : Int) : Except OutOfRange Day :=
  if year < minYear ∨ maxYear < year then .error ⟨"year"⟩
  else if ordinal < 1 ∨ (daysInYear year : Int) < ordinal then .error ⟨"ordinal"⟩
  else .ok ⟨year, ordinal.toNat⟩

def ofMonth (year : Int) (month day : Nat) : Except OutOfRange Day :=
  if year < minYear ∨ maxYear < year then .error ⟨"year"⟩
  else if month < 1 ∨ 12 < month then .error ⟨"month"⟩
  else if day < 1 ∨ daysInMonth year month < day then .error ⟨"day"⟩
  else .ok ⟨year, ((monthLengths year).take (month - 1)).foldl (· + ·) 0 + day⟩

/-- Takes whole months off a number of days: the month that is left and the day in it. -/
def splitMonths (month days : Nat) : List Nat → Nat × Nat
  | [] => (month, days)
  | length :: rest =>
    if days ≤ length then (month, days) else splitMonths (month + 1) (days - length) rest

def monthDay (d : Day) : Nat × Nat := splitMonths 1 d.ordinal (monthLengths d.year)

/-- The number of days from the first of January 1970 to a day. -/
def sinceEpoch (d : Day) : Int := daysBeforeYear d.year + d.ordinal - 1 - epochDays

/-- The year of a number of days counted from the first of January of year one. -/
def yearOfDays (days : Int) : Int :=
  let guess := days * 400 / 146097 + 1
  if days < daysBeforeYear guess then guess - 1
  else if daysBeforeYear (guess + 1) ≤ days then guess + 1
  else guess

/-- The day that comes a number of days after the first of January 1970. -/
def ofEpoch (days : Int) : Day :=
  let n := days + epochDays
  let year := yearOfDays n
  ⟨year, (n - daysBeforeYear year).toNat + 1⟩

/-- The day of the week, where Monday is nought. -/
def weekday (d : Day) : Nat := ((d.sinceEpoch + 3) % 7).toNat

/-- The day of the week, where Sunday is nought. -/
def weekdayFromSunday (d : Day) : Nat := (d.weekday + 1) % 7

/-- How many weeks a year has when weeks belong to the year of their Thursday. -/
def weeksInYear (year : Int) : Nat :=
  let first := weekday ⟨year, 1⟩
  if first = 3 ∨ (first = 2 ∧ isLeap year) then 53 else 52

/-- The year and number of the week of a day, where weeks start on Monday and belong to the year of
their Thursday. -/
def isoWeek (d : Day) : Int × Nat :=
  let week := (d.ordinal + 9 - d.weekday) / 7
  if week = 0 then (d.year - 1, weeksInYear (d.year - 1))
  else if week = 53 ∧ weeksInYear d.year = 52 then (d.year + 1, 1)
  else (d.year, week)

/-- The number of the week of a day, where the first Sunday starts week one. -/
def sundayWeek (d : Day) : Nat := (d.ordinal + 6 - d.weekdayFromSunday) / 7

/-- The number of the week of a day, where the first Monday starts week one. -/
def mondayWeek (d : Day) : Nat := (d.ordinal + 6 - d.weekday) / 7

/-- The day of the week in a week that belongs to the year of its Thursday. -/
def ofIsoWeek (year : Int) (week weekday : Nat) : Except OutOfRange Day :=
  if year < minYear ∨ maxYear < year then .error ⟨"year"⟩
  else if week < 1 ∨ weeksInYear year < week then .error ⟨"week"⟩
  else
    let fourth := Day.weekday ⟨year, 4⟩
    let start := sinceEpoch ⟨year, 4⟩ - fourth
    .ok (ofEpoch (start + 7 * (week - 1) + weekday))

/-- The day of a week that does not cross years: a year starts in week nought, or in week one if it
starts on a Monday, and `fromStart` counts the days of the week. -/
def ofPlainWeek (year : Int) (week fromStart : Nat) : Except OutOfRange Day :=
  let first := weekday ⟨year, 1⟩
  let shift : Nat := if first = 0 then 7 else first
  ofOrdinal year (week * 7 + fromStart - shift + 1)

end Day

end Remap.Date
