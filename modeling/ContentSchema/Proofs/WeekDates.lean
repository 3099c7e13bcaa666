import ContentSchema.Calendar.IsoWeek
import ContentSchema.Proofs.DayNumbers

/-! Weeks are the weeks of the Thursdays of a year, counted from 1. -/
namespace ContentSchema.Calendar.Date

/-- A date lies in a week of a year, from 1 on, when the Thursday of its week is a day of this year
and the week is that of the Thursday. Weeks start on Monday. -/
def InIsoWeek (d : Date) (year week : Nat) : Prop :=
  1 ≤ year ∧ ∃ thursday, 1 ≤ thursday ∧ thursday ≤ daysInYear year ∧
    d.dayNumber + 4 = daysBeforeYear year + thursday + d.isoWeekday ∧ week = (thursday - 1) / 7 + 1

/-- The first week of a year starts three days before its first Thursday, and its last week is that
of its last Thursday. -/
theorem exists_firstThursday (year : Nat) : ∃ thursday : Nat, 1 ≤ thursday ∧ thursday ≤ 7 ∧
    (daysBeforeYear year + thursday) % 7 = 4 ∧
    firstMonday year + 3 = (daysBeforeYear year + thursday : Nat) ∧
    weeksInYear year = (daysInYear year - thursday) / 7 + 1 := by
  refine ⟨(10 - daysBeforeYear year % 7) % 7 + 1, by omega, by omega, by omega, ?_, ?_⟩
  · rw [firstMonday, firstWeekday]
    split <;> omega
  · rw [weeksInYear, daysInYear, firstWeekday]
    cases isLeap year <;>
      simp only [Bool.false_eq_true, and_false, and_true, or_false, if_false, if_true] <;>
      split <;> omega

theorem isoWeekday_mem (d : Date) : 1 ≤ d.isoWeekday ∧ d.isoWeekday ≤ 7 := by
  rw [isoWeekday]
  omega

/-- The date of a weekday in a week is the one date that lies in the week on that weekday. -/
theorem ofIsoWeek?_eq_some_iff {year week weekday : Nat} {d : Date} :
    ofIsoWeek? year week weekday = some d ↔
      year ≤ 9999 ∧ d.isValid = true ∧ d.InIsoWeek year week ∧ d.isoWeekday = weekday := by
  rw [ofIsoWeek?, Option.ite_none_right_eq_some, ofDayNumber?_eq_some_iff]
  obtain ⟨start, pos, le7, weekday4, monday, weeks⟩ := exists_firstThursday year
  have days := daysInYear_mem year
  constructor
  · rintro ⟨⟨first, last, firstWeek, lastWeek, firstDay, lastDay⟩, valid, number⟩
    have onWeekday : d.isoWeekday = weekday := by
      rw [isoWeekday]
      omega
    exact ⟨last, valid,
      ⟨first, start + (week - 1) * 7, by omega, by omega, by omega, by omega⟩, onWeekday⟩
  · rintro ⟨last, valid, ⟨first, thursday, pos, inYear, number, rfl⟩, rfl⟩
    have weekday := isoWeekday_mem d
    rw [isoWeekday] at number weekday ⊢
    exact ⟨⟨first, last, by omega, by omega, by omega, by omega⟩, valid, by omega⟩

end ContentSchema.Calendar.Date
