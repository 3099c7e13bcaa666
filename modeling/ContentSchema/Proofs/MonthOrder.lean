import ContentSchema.Calendar.Difference
import ContentSchema.Proofs.UniversalTime

/-! Months in one count over all years. Times of an earlier month come before those of a later one,
and moving a time by months is moving along this count. -/
namespace ContentSchema.Calendar

theorem sum_take_succ (lengths : List Nat) (k : Nat) :
    (lengths.take (k + 1)).sum = (lengths.take k).sum + lengths.getD k 0 := by
  rw [List.take_add_one, List.sum_append, List.getD_eq_getElem?_getD]
  cases lengths[k]? <;> simp

/-- The days before a month. The months are counted from 0, twelve for each year. -/
def daysBeforeMonth (i : Nat) : Nat :=
  daysBeforeYear (i / 12) + ((monthLengths (i / 12)).take (i % 12)).sum

theorem daysBeforeMonth_succ {i : Nat} (first : 12 ≤ i) :
    daysBeforeMonth (i + 1) = daysBeforeMonth i + daysInMonth (i / 12) (i % 12 + 1) := by
  rw [daysInMonth, Nat.add_sub_cancel, daysBeforeMonth, daysBeforeMonth, Nat.add_assoc,
    ← sum_take_succ]
  by_cases last : i % 12 = 11
  · have year : (i + 1) / 12 = i / 12 + 1 := by omega
    have january : (i + 1) % 12 = 0 := by omega
    rw [year, january, last, daysBeforeYear_succ (by omega), List.take_zero, List.sum_nil,
      ← Date.sum_monthLengths]
    rfl
  · have year : (i + 1) / 12 = i / 12 := by omega
    have next : (i + 1) % 12 = i % 12 + 1 := by omega
    rw [year, next]

theorem daysBeforeMonth_mono {i j : Nat} (first : 12 ≤ i) (h : i ≤ j) :
    daysBeforeMonth i ≤ daysBeforeMonth j := by
  induction j, h using Nat.le_induction with
  | base => exact Nat.le_refl _
  | succ j hle ih =>
    rw [daysBeforeMonth_succ (Nat.le_trans first hle)]
    exact Nat.le_trans ih (Nat.le_add_right _ _)

theorem daysInMonth_pos (year : Nat) {k : Nat} (h : k < 12) : 1 ≤ daysInMonth year (k + 1) := by
  rw [daysInMonth, Nat.add_sub_cancel, monthLengths]
  cases isLeap year <;> decide +revert

namespace Date

/-- The place of the month of a date in the count of the months. -/
def monthIndex (d : Date) : Nat := d.year * 12 + (d.month - 1)

theorem monthIndex_div {d : Date} (valid : d.isValid = true) : d.monthIndex / 12 = d.year := by
  have months := ((isValid_iff d).mp valid).2.1
  rw [monthIndex]
  omega

theorem monthIndex_mod {d : Date} (valid : d.isValid = true) :
    d.monthIndex % 12 = d.month - 1 := by
  have months := ((isValid_iff d).mp valid).2.1
  rw [monthIndex]
  omega

theorem monthIndex_mem {d : Date} (valid : d.isValid = true) :
    12 ≤ d.monthIndex ∧ d.monthIndex < 120000 := by
  obtain ⟨years, months, -⟩ := (isValid_iff d).mp valid
  rw [monthIndex]
  omega

theorem dayNumber_eq {d : Date} (valid : d.isValid = true) :
    d.dayNumber = daysBeforeMonth d.monthIndex + d.day := by
  rw [dayNumber, dayOfYear_eq, daysBeforeMonth, monthIndex_div valid, monthIndex_mod valid,
    Nat.add_assoc]

end Date

namespace DateTime

/-- The microseconds from the day before the month to a time in it. -/
def timeInMonth (t : DateTime) : Nat :=
  (t.date.day * 86400 + t.secondOfDay) * 1000000 + t.microsecond

theorem IsUniversal.date {t : DateTime} (h : t.IsUniversal) : t.date.isValid = true :=
  ((isValid_iff t).mp h.valid).1

theorem IsUniversal.instant_eq {t : DateTime} (h : t.IsUniversal) :
    t.instant = (daysBeforeMonth t.date.monthIndex * 86400000000 + t.timeInMonth : Nat) := by
  rw [instant, h.universal, Date.dayNumber_eq h.date, timeInMonth]
  omega

theorem IsUniversal.timeInMonth_mem {t : DateTime} (h : t.IsUniversal) :
    86400000000 ≤ t.timeInMonth ∧
      t.timeInMonth < (daysInMonth t.date.year t.date.month + 1) * 86400000000 := by
  obtain ⟨date, hour, minute, second, microsecond, -⟩ := (isValid_iff t).mp h.valid
  obtain ⟨-, -, first, last⟩ := (Date.isValid_iff t.date).mp date
  rw [timeInMonth, secondOfDay]
  omega

/-- The times of a month come before those of every later month. -/
theorem instant_lt_of_monthIndex_lt {t u : DateTime} (ht : t.IsUniversal) (hu : u.IsUniversal)
    (earlier : t.date.monthIndex < u.date.monthIndex) : t.instant < u.instant := by
  have first := (Date.monthIndex_mem ht.date).1
  have whole := daysBeforeMonth_succ first
  have later : daysBeforeMonth (t.date.monthIndex + 1) ≤ daysBeforeMonth u.date.monthIndex :=
    daysBeforeMonth_mono (Nat.le_add_right_of_le first) earlier
  have before := ht.timeInMonth_mem.2
  have after := hu.timeInMonth_mem.1
  have month : t.date.month - 1 + 1 = t.date.month :=
    Nat.sub_add_cancel ((Date.isValid_iff t.date).mp ht.date).2.1.1
  rw [Date.monthIndex_div ht.date, Date.monthIndex_mod ht.date, month] at whole
  rw [ht.instant_eq, hu.instant_eq]
  omega

theorem instant_lt_iff_of_monthIndex_eq {t u : DateTime} (ht : t.IsUniversal) (hu : u.IsUniversal)
    (same : t.date.monthIndex = u.date.monthIndex) :
    t.instant < u.instant ↔ t.timeInMonth < u.timeInMonth := by
  rw [ht.instant_eq, hu.instant_eq, same]
  omega

/-- The same day and time in another month. A day that the month does not have becomes its last
day. -/
def inMonth (t : DateTime) (i : Nat) : DateTime :=
  { t with date := ⟨i / 12, i % 12 + 1, min t.date.day (daysInMonth (i / 12) (i % 12 + 1))⟩ }

@[simp] theorem monthIndex_inMonth (t : DateTime) (i : Nat) : (t.inMonth i).date.monthIndex = i := by
  simp only [inMonth, Date.monthIndex]
  omega

theorem inMonth_monthIndex {t : DateTime} (h : t.IsUniversal) :
    t.inMonth t.date.monthIndex = t := by
  obtain ⟨-, ⟨firstMonth, -⟩, -, inside⟩ := (Date.isValid_iff t.date).mp h.date
  simp only [inMonth, Date.monthIndex_div h.date, Date.monthIndex_mod h.date,
    Nat.sub_add_cancel firstMonth, Nat.min_eq_left inside]

theorem IsUniversal.inMonth {t : DateTime} (h : t.IsUniversal) {i : Nat} (first : 12 ≤ i)
    (last : i < 120000) : (t.inMonth i).IsUniversal := by
  obtain ⟨date, clock⟩ := (isValid_iff t).mp h.valid
  obtain ⟨-, -, dayPos, -⟩ := (Date.isValid_iff t.date).mp date
  have lengthPos := daysInMonth_pos (i / 12) (Nat.mod_lt i (by decide : 0 < 12))
  refine ⟨(isValid_iff _).mpr ⟨(Date.isValid_iff _).mpr ?_, clock⟩, h.universal⟩
  simp only [DateTime.inMonth]
  omega

/-- A time moved to an earlier month is earlier. -/
theorem inMonth_lt_iff {t : DateTime} (h : t.IsUniversal) {i j : Nat} (first : 12 ≤ i)
    (last : i < 120000) (firstToo : 12 ≤ j) (lastToo : j < 120000) :
    (t.inMonth i).instant < (t.inMonth j).instant ↔ i < j := by
  have ascending {i j : Nat} (first : 12 ≤ i) (last : j < 120000) (lt : i < j) :
      (t.inMonth i).instant < (t.inMonth j).instant :=
    instant_lt_of_monthIndex_lt (h.inMonth first (Nat.lt_trans lt last))
      (h.inMonth (Nat.le_trans first (Nat.le_of_lt lt)) last) (by simpa using lt)
  refine ⟨fun lt => ?_, ascending first lastToo⟩
  by_contra notLt
  obtain same | later := Nat.eq_or_lt_of_le (Nat.le_of_not_lt notLt)
  · rw [same] at lt
    exact lt_irrefl _ lt
  · exact lt_asymm lt (ascending firstToo last later)

theorem inMonth_le_iff {t : DateTime} (h : t.IsUniversal) {i j : Nat} (first : 12 ≤ i)
    (last : i < 120000) (firstToo : 12 ≤ j) (lastToo : j < 120000) :
    (t.inMonth i).instant ≤ (t.inMonth j).instant ↔ i ≤ j := by
  rw [← not_lt, inMonth_lt_iff h firstToo lastToo first last, not_lt]

/-- A time is moved along the count of the months, as far as the years 1 to 9999 reach. -/
theorem shiftMonths_eq (t : DateTime) (months : Int) :
    let i := t.date.monthIndex + months
    t.shiftMonths months =
      if 12 ≤ i ∧ i < 120000 then .ok (t.inMonth i.toNat) else .error ⟨i / 12⟩ := by
  intro i
  have total : (t.date.year * 12 + (t.date.month - 1 : Nat) + months : Int) = i := by
    simp only [i, Date.monthIndex]
    omega
  simp only [shiftMonths, total, inMonth]
  by_cases inside : 12 ≤ i ∧ i < 120000
  · have year : (i / 12).toNat = i.toNat / 12 := by omega
    have month : (i % 12).toNat = i.toNat % 12 := by omega
    rw [if_pos inside, if_pos (by omega), year, month]
  · rw [if_neg inside, if_neg (by omega)]

theorem shiftMonths_eq_ok_iff {t u : DateTime} {months : Int} :
    t.shiftMonths months = .ok u ↔ ∃ i : Nat, (i : Int) = t.date.monthIndex + months ∧
      12 ≤ i ∧ i < 120000 ∧ t.inMonth i = u := by
  rw [shiftMonths_eq]
  constructor
  · intro moved
    split at moved
    · exact ⟨_, Int.toNat_of_nonneg (by omega), by omega, by omega, Except.ok.inj moved⟩
    · cases moved
  · rintro ⟨i, here, first, last, rfl⟩
    rw [← here, if_pos (by omega), Int.toNat_natCast]

end DateTime

/-- Whole months and a part of one, in which a time lies past an anchor; counted backwards. -/
def monthsPast (round : Rounding) (whole past length : Int) : Rat :=
  -(round (whole + round (mkRat past length.toNat)))

/-- The months between two times are told by two anchors: the first time moved into the month of the
second one, and into the month before or after it. -/
theorem monthsBetween_eq (round : Rounding) {a b : DateTime} (ha : a.IsUniversal)
    (hb : b.IsUniversal) :
    let whole : Int := b.date.monthIndex - a.date.monthIndex
    let anchor := (a.inMonth b.date.monthIndex).instant
    monthsBetween round a b =
      if b.instant < anchor then
        (a.shiftMonths (whole - 1)).map fun earlier =>
          monthsPast round whole (b.instant - anchor) (anchor - earlier.instant)
      else
        (a.shiftMonths (whole + 1)).map fun later =>
          monthsPast round whole (b.instant - anchor) (later.instant - anchor) := by
  intro whole anchor
  have months : ((b.date.year : Int) - a.date.year) * 12 +
      ((b.date.month : Int) - a.date.month) = whole := by
    have firstMonth := ((Date.isValid_iff a.date).mp ha.date).2.1.1
    have firstMonthToo := ((Date.isValid_iff b.date).mp hb.date).2.1.1
    simp only [whole, Date.monthIndex]
    omega
  have anchored : a.shiftMonths whole = .ok (a.inMonth b.date.monthIndex) := by
    obtain ⟨first, last⟩ := Date.monthIndex_mem hb.date
    exact DateTime.shiftMonths_eq_ok_iff.mpr ⟨_, by omega, first, last, rfl⟩
  rw [monthsBetween, months, anchored]
  by_cases before : b.instant < anchor
  · have past : b.instant - anchor < 0 := by omega
    rw [if_pos before]
    simp only [bind, Except.bind, pure, Except.pure, anchor, past, if_true]
    cases a.shiftMonths (whole - 1) <;> rfl
  · have past : ¬ b.instant - anchor < 0 := by omega
    rw [if_neg before]
    simp only [bind, Except.bind, pure, Except.pure, anchor, past, if_false]
    cases a.shiftMonths (whole + 1) <;> rfl

end ContentSchema.Calendar
