/-!
Contract: dates of the Gregorian calendar and the days they are.

Owns:
- `Date` and the lengths of years and months;
- `Date.dayNumber`, the number of days from 1 January 1970 to a date, negative before it;
- `Date.ofDayNumber`, the date of a day.

Years extend in both directions without limit; year 0 comes before year 1.
-/

set_option autoImplicit false

namespace RunManifest

/-- A date of the Gregorian calendar. -/
structure Date where
  year : Int
  month : Nat
  day : Nat
deriving DecidableEq, Repr, Inhabited

namespace Calendar

def isLeapYear (year : Int) : Bool :=
  year % 4 == 0 && (year % 100 != 0 || year % 400 == 0)

def monthLengths (year : Int) : List Nat :=
  [31, if isLeapYear year then 29 else 28, 31, 30, 31, 30, 31, 31, 30, 31, 30, 31]

/-- The number of days from 1 January 1970 to 1 January of a year. -/
def daysBeforeYear (year : Int) : Int :=
  365 * (year - 1) + (year - 1) / 4 - (year - 1) / 100 + (year - 1) / 400 - 719162

def daysBeforeMonth (year : Int) (month : Nat) : Nat :=
  ((monthLengths year).take (month - 1)).foldr Nat.add 0

/-- The year that a day belongs to. The first guess is at most one year off. -/
def yearOfDay (day : Int) : Int :=
  let guess := (day + 719162) * 400 / 146097 + 1
  if day < daysBeforeYear guess then guess - 1
  else if daysBeforeYear (guess + 1) ≤ day then guess + 1
  else guess

/-- The month and the day of the month at an offset into consecutive months, the first of which has
the given number. -/
def monthAndDay : Nat → List Nat → Nat → Nat × Nat
  | month, [], offset => (month, offset + 1)
  | month, length :: rest, offset =>
      if offset < length then (month, offset + 1)
      else monthAndDay (month + 1) rest (offset - length)

end Calendar

namespace Date

def isValid (date : Date) : Bool :=
  1 ≤ date.month && date.month ≤ 12 && 1 ≤ date.day
    && date.day ≤ (Calendar.monthLengths date.year).getD (date.month - 1) 0

/-- The number of days from 1 January 1970 to a date. -/
def dayNumber (date : Date) : Int :=
  Calendar.daysBeforeYear date.year + Calendar.daysBeforeMonth date.year date.month
    + ((date.day : Int) - 1)

def ofDayNumber (day : Int) : Date :=
  let year := Calendar.yearOfDay day
  let place := Calendar.monthAndDay 1 (Calendar.monthLengths year)
    (day - Calendar.daysBeforeYear year).toNat
  ⟨year, place.1, place.2⟩

end Date

end RunManifest
