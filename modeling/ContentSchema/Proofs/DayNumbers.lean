import ContentSchema.Calendar.Date
import Mathlib.Algebra.Order.Ring.Nat

/-! Dates and their day numbers: each is found again from the other. -/
namespace ContentSchema.Calendar

theorem isLeap_iff (year : Nat) :
    isLeap year = true ↔ 4 ∣ year ∧ (¬ 100 ∣ year ∨ 400 ∣ year) := by
  simp [isLeap, Nat.dvd_iff_mod_eq_zero]

theorem daysBeforeYear_succ {year : Nat} (h : 1 ≤ year) :
    daysBeforeYear (year + 1) = daysBeforeYear year + daysInYear year := by
  obtain ⟨q, rfl⟩ := Nat.exists_eq_add_of_le' h
  have fewer : q / 100 ≤ q / 4 := Nat.div_le_div_left (by decide) (by decide)
  have of100 : 100 ∣ q + 1 → 4 ∣ q + 1 := Nat.dvd_trans (by decide)
  have of400 : 400 ∣ q + 1 → 100 ∣ q + 1 := Nat.dvd_trans (by decide)
  -- One case for each of 4, 100 and 400 that divides the year, or does not.
  simp only [daysBeforeYear, daysInYear, isLeap_iff, Nat.add_sub_cancel, Nat.succ_div]
  split_ifs <;> simp_all <;> omega

/-- The days before a year are 365.2425 times the years before it, up to two days. -/
theorem daysBeforeYear_near (year : Nat) :
    146097 * (year - 1) ≤ 400 * daysBeforeYear year + 700 ∧
      400 * daysBeforeYear year < 146097 * (year - 1) + 400 := by
  unfold daysBeforeYear
  generalize year - 1 = q
  omega

theorem daysInYear_mem (year : Nat) : daysInYear year = 365 ∨ daysInYear year = 366 := by
  unfold daysInYear
  split <;> simp

theorem daysBeforeYear_mono {year later : Nat} (pos : 1 ≤ year) (h : year ≤ later) :
    daysBeforeYear year ≤ daysBeforeYear later := by
  induction later, h using Nat.le_induction with
  | base => exact Nat.le_refl _
  | succ later hle ih =>
    rw [daysBeforeYear_succ (Nat.le_trans pos hle)]
    exact Nat.le_trans ih (Nat.le_add_right _ _)

theorem daysInMonth_le (year month : Nat) : daysInMonth year month ≤ 31 := by
  have all : ∀ length ∈ monthLengths year, length ≤ 31 := by
    unfold monthLengths
    cases isLeap year <;> decide
  rw [daysInMonth, List.getD_eq_getElem?_getD]
  cases found : (monthLengths year)[month - 1]? with
  | none => exact Nat.zero_le _
  | some length => exact all length (List.mem_of_getElem? found)

namespace Date

/-- The estimate of the year is the year itself or the one before it. -/
theorem yearOfDay_eq {year n : Nat} (pos : 1 ≤ year) (after : daysBeforeYear year < n)
    (before : n ≤ daysBeforeYear (year + 1)) : yearOfDay n = year := by
  have near := daysBeforeYear_near year
  have nearNext := daysBeforeYear_near (year + 1)
  rw [yearOfDay]
  obtain here | earlier :
      (n - 1) * 400 / 146097 + 1 = year ∨ (n - 1) * 400 / 146097 + 2 = year := by omega
  · rw [here, if_neg (Nat.not_le_of_lt after), if_neg (Nat.not_lt_of_le before)]
  · subst earlier
    have mono : daysBeforeYear ((n - 1) * 400 / 146097 + 1) ≤
        daysBeforeYear ((n - 1) * 400 / 146097 + 2) := daysBeforeYear_mono (by omega) (by omega)
    rw [if_neg (by omega), if_pos after]

/-- Every day falls into a year. -/
theorem exists_year (years : Nat) {n : Nat} (pos : 1 ≤ n)
    (before : n ≤ daysBeforeYear (years + 1)) :
    ∃ year, 1 ≤ year ∧ year ≤ years ∧ daysBeforeYear year < n ∧ n ≤ daysBeforeYear (year + 1) := by
  induction years with
  | zero => exact absurd (Nat.le_trans pos before) (by decide)
  | succ years ih =>
    by_cases earlier : n ≤ daysBeforeYear (years + 1)
    · obtain ⟨year, first, last, found⟩ := ih earlier
      exact ⟨year, first, Nat.le_succ_of_le last, found⟩
    · exact ⟨years + 1, Nat.le_add_left _ _, Nat.le_refl _, Nat.lt_of_not_le earlier, before⟩

theorem sum_monthLengths (year : Nat) : (monthLengths year).sum = daysInYear year := by
  unfold monthLengths daysInYear
  cases isLeap year <;> rfl

private theorem foldl_add (lengths : List Nat) (start : Nat) :
    lengths.foldl (· + ·) start = lengths.sum + start := by
  induction lengths generalizing start with
  | nil => simp
  | cons length lengths ih =>
    rw [List.foldl_cons, ih, List.sum_cons]
    omega

theorem dayOfYear_eq (d : Date) :
    d.dayOfYear = ((monthLengths d.year).take (d.month - 1)).sum + d.day :=
  foldl_add _ _

/-- A day of one of several months is found again from its place in all of them. -/
theorem monthAndDay_sum_add (month : Nat) {lengths : List Nat} {k day : Nat}
    (pos : 1 ≤ day) (inMonth : day ≤ lengths.getD k 0) :
    monthAndDay month lengths ((lengths.take k).sum + day) = (month + k, day) := by
  induction lengths generalizing month k with
  | nil =>
    rw [List.getD_nil] at inMonth
    omega
  | cons length lengths ih =>
    cases k with
    | zero =>
      rw [List.getD_cons_zero] at inMonth
      rw [List.take_zero, List.sum_nil, Nat.zero_add, monthAndDay, if_pos inMonth, Nat.add_zero]
    | succ k =>
      rw [List.getD_cons_succ] at inMonth
      have later : ¬ length + (lengths.take k).sum + day ≤ length := by omega
      have left : length + (lengths.take k).sum + day - length = (lengths.take k).sum + day := by
        omega
      rw [List.take_succ_cons, List.sum_cons, monthAndDay, if_neg later, left,
        ih (month + 1) inMonth, Nat.add_right_comm, Nat.add_assoc]

/-- Every place in several months is that of a day of one of them. -/
theorem exists_sum_add {lengths : List Nat} {n : Nat} (pos : 1 ≤ n) (inYear : n ≤ lengths.sum) :
    ∃ k day, k < lengths.length ∧ 1 ≤ day ∧ day ≤ lengths.getD k 0 ∧
      n = (lengths.take k).sum + day := by
  induction lengths generalizing n with
  | nil =>
    rw [List.sum_nil] at inYear
    omega
  | cons length lengths ih =>
    by_cases here : n ≤ length
    · exact ⟨0, n, Nat.zero_lt_succ _, pos, here, by simp⟩
    · rw [List.sum_cons] at inYear
      obtain ⟨k, day, inside, first, last, sum⟩ := ih (n := n - length) (by omega) (by omega)
      refine ⟨k + 1, day, Nat.succ_lt_succ inside, first, last, ?_⟩
      rw [List.take_succ_cons, List.sum_cons]
      omega

theorem sum_take_add_getD_le (lengths : List Nat) (k : Nat) :
    (lengths.take k).sum + lengths.getD k 0 ≤ lengths.sum := by
  induction lengths generalizing k with
  | nil => simp
  | cons length lengths ih =>
    cases k with
    | zero => simp
    | succ k =>
      rw [List.take_succ_cons, List.sum_cons, List.sum_cons, List.getD_cons_succ, Nat.add_assoc]
      exact Nat.add_le_add_left (ih k) length

theorem isValid_iff (d : Date) : d.isValid = true ↔
    (1 ≤ d.year ∧ d.year ≤ 9999) ∧ (1 ≤ d.month ∧ d.month ≤ 12) ∧
      1 ≤ d.day ∧ d.day ≤ daysInMonth d.year d.month := by
  simp [isValid, and_assoc]

theorem ofParts?_eq_some_iff {year month day : Nat} {d : Date} :
    ofParts? year month day = some d ↔ d.isValid = true ∧ d = ⟨year, month, day⟩ := by
  rw [ofParts?, Option.ite_none_right_eq_some]
  constructor
  · rintro ⟨valid, ⟨⟩⟩
    exact ⟨valid, rfl⟩
  · rintro ⟨valid, rfl⟩
    exact ⟨valid, rfl⟩

/-- The date of a day of a year is the one date that has this place in this year. -/
theorem ofDayOfYear_eq_iff {year n : Nat} (first : 1 ≤ year) (last : year ≤ 9999) (d : Date) :
    1 ≤ n ∧ n ≤ daysInYear year ∧ ofDayOfYear year n = d ↔
      d.isValid = true ∧ d.year = year ∧ d.dayOfYear = n := by
  constructor
  · rintro ⟨pos, inYear, rfl⟩
    rw [← sum_monthLengths] at inYear
    obtain ⟨k, day, inside, dayPos, inMonth, rfl⟩ := exists_sum_add pos inYear
    have found : ofDayOfYear year (((monthLengths year).take k).sum + day) =
        ⟨year, k + 1, day⟩ := by
      rw [ofDayOfYear, monthAndDay_sum_add 1 dayPos inMonth, Nat.add_comm]
    rw [found, isValid_iff, dayOfYear_eq]
    exact ⟨⟨⟨first, last⟩, ⟨Nat.le_add_left _ _, inside⟩, dayPos, inMonth⟩, rfl, rfl⟩
  · rintro ⟨valid, rfl, rfl⟩
    obtain ⟨-, ⟨firstMonth, lastMonth⟩, dayPos, inMonth⟩ := (isValid_iff d).mp valid
    have all := sum_take_add_getD_le (monthLengths d.year) (d.month - 1)
    rw [sum_monthLengths] at all
    rw [dayOfYear_eq, ofDayOfYear, monthAndDay_sum_add 1 dayPos inMonth,
      Nat.add_sub_cancel' firstMonth]
    exact ⟨Nat.le_add_left_of_le dayPos,
      Nat.le_trans (Nat.add_le_add_left inMonth _) all, rfl⟩

theorem dayOfYear_mem {d : Date} (valid : d.isValid = true) :
    1 ≤ d.dayOfYear ∧ d.dayOfYear ≤ daysInYear d.year := by
  obtain ⟨⟨first, last⟩, -⟩ := (isValid_iff d).mp valid
  obtain ⟨pos, inYear, -⟩ := (ofDayOfYear_eq_iff first last d).mpr ⟨valid, rfl, rfl⟩
  exact ⟨pos, inYear⟩

theorem ofDayOfYear_dayOfYear {d : Date} (valid : d.isValid = true) :
    ofDayOfYear d.year d.dayOfYear = d := by
  obtain ⟨⟨first, last⟩, -⟩ := (isValid_iff d).mp valid
  exact ((ofDayOfYear_eq_iff first last d).mpr ⟨valid, rfl, rfl⟩).2.2

theorem dayNumber_mem {d : Date} (valid : d.isValid = true) :
    daysBeforeYear d.year < d.dayNumber ∧ d.dayNumber ≤ daysBeforeYear (d.year + 1) := by
  obtain ⟨⟨first, -⟩, -⟩ := (isValid_iff d).mp valid
  obtain ⟨pos, inYear⟩ := dayOfYear_mem valid
  rw [daysBeforeYear_succ first, dayNumber]
  omega

theorem dayNumber_le {d : Date} (valid : d.isValid = true) : d.dayNumber ≤ lastDayNumber := by
  obtain ⟨⟨-, last⟩, -⟩ := (isValid_iff d).mp valid
  exact Nat.le_trans (dayNumber_mem valid).2
    (daysBeforeYear_mono (Nat.le_add_left _ _) (Nat.succ_le_succ last))

/-- The date of a day number is the one date that has it. -/
theorem ofDayNumber?_eq_some_iff {n : Int} {d : Date} :
    ofDayNumber? n = some d ↔ d.isValid = true ∧ (d.dayNumber : Int) = n := by
  constructor
  · intro found
    rw [ofDayNumber?] at found
    obtain ⟨⟨pos, before⟩, found⟩ := Option.ite_none_right_eq_some.mp found
    lift n to Nat using Int.le_trans (by decide) pos
    have last : daysBeforeYear (9999 + 1) = lastDayNumber := rfl
    obtain ⟨year, first, last, after, before⟩ := exists_year 9999 (n := n) (by omega) (by omega)
    rw [Int.toNat_natCast, yearOfDay_eq first after before, Option.some.injEq] at found
    rw [daysBeforeYear_succ first] at before
    obtain ⟨valid, sameYear, place⟩ := (ofDayOfYear_eq_iff first last d).mp
      ⟨by omega, by omega, found⟩
    refine ⟨valid, ?_⟩
    rw [dayNumber, sameYear, place, Nat.add_sub_cancel' (Nat.le_of_lt after)]
  · rintro ⟨valid, rfl⟩
    obtain ⟨⟨first, last⟩, -⟩ := (isValid_iff d).mp valid
    obtain ⟨after, before⟩ := dayNumber_mem valid
    have inside := dayNumber_le valid
    rw [ofDayNumber?, if_pos (by omega), Int.toNat_natCast, yearOfDay_eq first after before]
    show some (ofDayOfYear d.year (d.dayNumber - daysBeforeYear d.year)) = some d
    rw [dayNumber, Nat.add_sub_cancel_left, ofDayOfYear_dayOfYear valid]

end Date
end ContentSchema.Calendar
