import ContentSchema.Calendar.Date

/-! Weeks that start on Monday and belong to the year that holds their Thursday. -/
namespace ContentSchema.Calendar

/-- The weekday of the first day of a year, Monday being 0. -/
def firstWeekday (year : Nat) : Nat := (daysBeforeYear year + 7) % 7

/-- The day number of the Monday that starts the first week of a year. -/
def firstMonday (year : Nat) : Int :=
  let monday : Int := daysBeforeYear year + 1 - firstWeekday year
  if 3 < firstWeekday year then monday + 7 else monday

/-- A year has 53 weeks when it starts on a Thursday, or on a Wednesday and is a leap year. -/
def weeksInYear (year : Nat) : Nat :=
  if firstWeekday year = 3 ∨ (firstWeekday year = 2 ∧ isLeap year) then 53 else 52

structure IsoWeek where
  year : Nat
  week : Nat
deriving DecidableEq

/-- The week of a date; the first and last days of a year may fall into a neighbouring year. -/
def Date.isoWeek (d : Date) : IsoWeek :=
  let n : Int := d.dayNumber
  if n < firstMonday d.year then
    ⟨d.year - 1, ((n - firstMonday (d.year - 1)) / 7 + 1).toNat⟩
  else if firstMonday (d.year + 1) ≤ n then ⟨d.year + 1, 1⟩
  else ⟨d.year, ((n - firstMonday d.year) / 7 + 1).toNat⟩

/-- The date of a weekday in a week, when the week, the weekday and the date exist. -/
def Date.ofIsoWeek? (year week weekday : Nat) : Option Date :=
  if 1 ≤ year ∧ year ≤ 9999 ∧ 1 ≤ week ∧ week ≤ weeksInYear year ∧ 1 ≤ weekday ∧ weekday ≤ 7 then
    Date.ofDayNumber? (firstMonday year + (week - 1 : Nat) * 7 + (weekday - 1 : Nat))
  else none

end ContentSchema.Calendar
