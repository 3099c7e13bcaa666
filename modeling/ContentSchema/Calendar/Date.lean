/-! Dates of the proleptic Gregorian calendar in the years 1 to 9999, and their day numbers. -/
namespace ContentSchema.Calendar

def isLeap (year : Nat) : Bool := year % 4 == 0 && (year % 100 != 0 || year % 400 == 0)

def daysInYear (year : Nat) : Nat := if isLeap year then 366 else 365

/-- The lengths of the twelve months. -/
def monthLengths (year : Nat) : List Nat :=
  [31, if isLeap year then 29 else 28, 31, 30, 31, 30, 31, 31, 30, 31, 30, 31]

/-- The length of a month from 1 to 12. -/
def daysInMonth (year month : Nat) : Nat := (monthLengths year).getD (month - 1) 0

/-- The days from the start of year 1 to the start of a year from 1 on. -/
def daysBeforeYear (year : Nat) : Nat :=
  365 * (year - 1) + (year - 1) / 4 - (year - 1) / 100 + (year - 1) / 400

structure Date where
  year : Nat
  month : Nat
  day : Nat
deriving DecidableEq

namespace Date

def isValid (d : Date) : Bool :=
  1 ≤ d.year && d.year ≤ 9999 && 1 ≤ d.month && d.month ≤ 12 && 1 ≤ d.day &&
    d.day ≤ daysInMonth d.year d.month

def ofParts? (year month day : Nat) : Option Date :=
  let d : Date := ⟨year, month, day⟩
  if d.isValid then some d else none

/-- The place of a date in its year, from 1. -/
def dayOfYear (d : Date) : Nat :=
  ((monthLengths d.year).take (d.month - 1)).foldl (· + ·) d.day

/-- Days counted from 1 on the first day of year 1. -/
def dayNumber (d : Date) : Nat := daysBeforeYear d.year + d.dayOfYear

/-- The year of a day number. Four hundred years have 146097 days, and the quotient is off by one
year at most. -/
def yearOfDay (n : Nat) : Nat :=
  let estimate := (n - 1) * 400 / 146097 + 1
  if n ≤ daysBeforeYear estimate then estimate - 1
  else if daysBeforeYear (estimate + 1) < n then estimate + 1
  else estimate

/-- The month and day of a day of the year, counting through the lengths of the months. -/
def monthAndDay : (month : Nat) → (lengths : List Nat) → (day : Nat) → Nat × Nat
  | month, [], day => (month, day)
  | month, length :: rest, day =>
    if day ≤ length then (month, day) else monthAndDay (month + 1) rest (day - length)

def ofDayOfYear (year n : Nat) : Date :=
  let (month, day) := monthAndDay 1 (monthLengths year) n
  ⟨year, month, day⟩

/-- The last day number: the end of year 9999. -/
def lastDayNumber : Nat := 3652059

def ofDayNumber? (n : Int) : Option Date :=
  if 1 ≤ n ∧ n ≤ lastDayNumber then
    let year := yearOfDay n.toNat
    some (ofDayOfYear year (n.toNat - daysBeforeYear year))
  else none

/-- Monday is 1 and Sunday 7. -/
def isoWeekday (d : Date) : Nat := (d.dayNumber + 6) % 7 + 1

end Date
end ContentSchema.Calendar
