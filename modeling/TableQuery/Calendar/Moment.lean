/-!
# Dates and moments

Dates of the proleptic Gregorian calendar and their place on the time line, counted in
milliseconds from the start of 1970 in UTC. The day number of a date is a closed formula in the
year plus the days of the months before it, so nothing here depends on a clock or a time zone.

The 60th second of a minute is a moment of its own; on the time line it falls on the start of the
next minute.
-/

namespace TableQuery

/-- A date, as its numbers are written. -/
structure Date where
  year : Int
  month : Nat
  day : Nat
deriving DecidableEq, Repr

namespace Date

/-- Every fourth year is a leap year, but of the full centuries only every fourth. -/
def isLeapYear (year : Int) : Bool :=
  year % 4 == 0 && (year % 100 != 0 || year % 400 == 0)

/-- The number of days of a month; zero for a month that does not exist. -/
def daysInMonth (year : Int) (month : Nat) : Nat :=
  match month with
  | 1 | 3 | 5 | 7 | 8 | 10 | 12 => 31
  | 4 | 6 | 9 | 11 => 30
  | 2 => if isLeapYear year then 29 else 28
  | _ => 0

/-- The years that the calendar reaches. -/
def yearInRange (year : Int) : Bool :=
  decide (-262143 ≤ year) && decide (year ≤ 262142)

/-- The date exists. -/
def isValid (d : Date) : Bool :=
  yearInRange d.year && decide (1 ≤ d.day) && decide (d.day ≤ daysInMonth d.year d.month)

/-- The days between the start of 1970 and the start of a year. -/
def daysBeforeYear (year : Int) : Int :=
  365 * (year - 1970) + (year - 1) / 4 - (year - 1) / 100 + (year - 1) / 400 - 477

/-- The days of a year before a month. -/
def daysBeforeMonth (year : Int) (month : Nat) : Nat :=
  (List.range (month - 1)).foldl (fun days m => days + daysInMonth year (m + 1)) 0

/-- The number of the day, the first of January 1970 being day zero. -/
def dayNumber (d : Date) : Int :=
  daysBeforeYear d.year + daysBeforeMonth d.year d.month + (d.day - 1 : Int)

end Date

/-- Milliseconds of a day. -/
def dayMillis : Int := 86400000

/-- A date with a time of day in UTC, down to the millisecond. -/
structure Moment where
  date : Date
  hour : Nat
  minute : Nat
  second : Nat
  milli : Nat
deriving DecidableEq, Repr

namespace Moment

/-- The date exists, and so does the time of day; a minute may have a 60th second. -/
def isValid (m : Moment) : Bool :=
  m.date.isValid && decide (m.hour < 24) && decide (m.minute < 60) && decide (m.second ≤ 60)

/-- The milliseconds since the start of the day. -/
def millisOfDay (m : Moment) : Nat :=
  ((m.hour * 60 + m.minute) * 60 + m.second) * 1000 + m.milli

/-- The place on the time line, in milliseconds. -/
def millis (m : Moment) : Int :=
  m.date.dayNumber * dayMillis + m.millisOfDay

end Moment

end TableQuery
