/-!
# The calendar

Days are counted from the first of January 1970 in the Gregorian calendar, extended
without limit in both directions. Four hundred years always have the same number of
days, so a day is placed by dividing by the lengths of four centuries, one century,
four years and one year in turn.
-/

namespace EntityQuery.Calendar

/-- A date by year, month and day of the month. -/
structure Date where
  /-- The year; the year before year one is year zero. -/
  year : Int
  /-- The month, counted from one. -/
  month : Nat
  /-- The day of the month, counted from one. -/
  day : Nat
  deriving Repr, DecidableEq

/-- Years with a leap day. -/
def isLeap (year : Int) : Bool :=
  year % 4 = 0 && (year % 100 ≠ 0 || year % 400 = 0)

/-- The lengths of the months. -/
def monthLengths (leap : Bool) : List Nat :=
  [31, if leap then 29 else 28, 31, 30, 31, 30, 31, 31, 30, 31, 30, 31]

/-- The number of days of a month. -/
def monthLength (year : Int) (month : Nat) : Nat :=
  (monthLengths (isLeap year)).getD (month - 1) 0

/-- The days from the first of January of year one to the same day of another year. -/
def daysBeforeYear (year : Int) : Int :=
  let past := year - 1
  365 * past + past / 4 - past / 100 + past / 400

/-- The days from the first of January of year one to the first of January 1970. -/
def epochDay : Int := 719162

/-- A date that the calendar has. -/
def Date.isValid (date : Date) : Bool :=
  1 ≤ date.month && date.month ≤ 12 && 1 ≤ date.day && date.day ≤ monthLength date.year date.month

/-- The days from the first of January to the first of a month. -/
def daysBeforeMonth (year : Int) (month : Nat) : Nat :=
  ((monthLengths (isLeap year)).take (month - 1)).foldl (fun days length => days + length) 0

/-- The number of a date. -/
def Date.toDay (date : Date) : Int :=
  daysBeforeYear date.year + daysBeforeMonth date.year date.month + (date.day - 1 : Nat) - epochDay

/-- Place a day of the year, counted from zero, among the months from a given one on. -/
def placeInMonths : Nat → List Nat → Nat → Nat × Nat
  | month, [], day => (month, day + 1)
  | month, length :: lengths, day =>
    if day < length then (month, day + 1) else placeInMonths (month + 1) lengths (day - length)

/-- The date at a place in a year. -/
def dateInYear (year : Int) (day : Nat) : Date :=
  let place := placeInMonths 1 (monthLengths (isLeap year)) day
  { year := year, month := place.1, day := place.2 }

/-- The date with a given number. -/
def dateOfDay (number : Int) : Date :=
  let day := number + epochDay
  let fourCenturies := day / 146097
  let day := day % 146097
  let century := min (day / 36524) 3
  let day := day - 36524 * century
  let fourYears := day / 1461
  let day := day % 1461
  let single := min (day / 365) 3
  let day := day - 365 * single
  dateInYear (400 * fourCenturies + 100 * century + 4 * fourYears + single + 1) day.toNat

end EntityQuery.Calendar
