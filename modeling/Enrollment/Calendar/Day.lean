/-! # Days

Days of the Gregorian calendar, counted from 1 January 1970.
-/

namespace Enrollment.Calendar

def isLeap (year : Int) : Bool := year % 4 = 0 && (year % 100 ≠ 0 || year % 400 = 0)

def monthLength (year : Int) (month : Nat) : Nat :=
  if month = 2 then if isLeap year then 29 else 28
  else if month = 4 ∨ month = 6 ∨ month = 9 ∨ month = 11 then 30
  else 31

/-- Days of a year before the first of a month. -/
def daysBeforeMonth (year : Int) (month : Nat) : Nat :=
  (List.range (month - 1)).foldl (fun days m => days + monthLength year (m + 1)) 0

/-- The day number of 1 January. -/
def yearStart (year : Int) : Int :=
  let y := year - 1
  365 * (year - 1970) + (y / 4 - y / 100 + y / 400) - 477

def isDate (year : Int) (month day : Nat) : Bool :=
  1 ≤ month && month ≤ 12 && 1 ≤ day && day ≤ monthLength year month

def dayNumber (year : Int) (month day : Nat) : Int :=
  yearStart year + daysBeforeMonth year month + (day : Int) - 1

def secondsPerDay : Int := 86400

def minYear : Int := -9999

def maxYear : Int := 9999

/-- The first and the last second of the calendar, counted from the start of 1970. -/
def firstSecond : Int := yearStart minYear * secondsPerDay

def lastSecond : Int := yearStart (maxYear + 1) * secondsPerDay - 1

end Enrollment.Calendar
