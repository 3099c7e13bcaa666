import ContentSchema.Proofs.MonthOrder
import Mathlib.Data.Rat.Floor
import Mathlib.Tactic.FieldSimp
import Mathlib.Tactic.Linarith

/-! Differences in months, quarters and years count the whole months by which now can be moved
towards a time without passing it. -/
namespace ContentSchema.Calendar

theorem truncate_of_nonneg {q : Rat} (h : 0 ≤ q) : truncate q = ⌊q⌋ := by
  rw [truncate, Rat.floor_def', Int.tdiv_eq_ediv_of_nonneg (Rat.num_nonneg.mpr h)]

theorem truncate_neg (q : Rat) : truncate (-q) = -truncate q := by
  rw [truncate, truncate, Rat.num_neg_eq_neg_num, Rat.den_neg_eq_den, Int.neg_tdiv]

theorem truncate_natCast_add (n : Nat) {part : Rat} (nonneg : 0 ≤ part) (ltOne : part < 1) :
    truncate (n + part) = n := by
  rw [truncate_of_nonneg (add_nonneg (Nat.cast_nonneg n) nonneg), Int.floor_natCast_add,
    Int.floor_eq_zero_iff.mpr ⟨nonneg, ltOne⟩, Int.add_zero]

/-- Truncating before a division by a whole number changes nothing. -/
theorem truncate_div_natCast (q : Rat) (n : Nat) : truncate (q / n) = (truncate q).tdiv n := by
  have positive {q : Rat} (h : 0 ≤ q) : truncate (q / n) = (truncate q).tdiv n := by
    rw [truncate_of_nonneg (div_nonneg h (Nat.cast_nonneg n)), truncate_of_nonneg h,
      Int.floor_div_natCast, Int.tdiv_eq_ediv_of_nonneg (Int.floor_nonneg.mpr h)]
  obtain h | h := le_total 0 q
  · exact positive h
  · have mirrored := positive (neg_nonneg.mpr h)
    rw [neg_div, truncate_neg, truncate_neg, Int.neg_tdiv] at mirrored
    exact neg_injective mirrored

/-- Which part of the way from one integer to a greater one lies before a third. -/
theorem part_mem {lower upper v : Int} (after : lower ≤ v) (before : v < upper) :
    let part : Rat := (v - lower : Int) / (upper - lower : Int)
    0 ≤ part ∧ part < 1 ∧ (part = 0 ↔ v = lower) := by
  have length : (0 : Rat) < (upper - lower : Int) := by
    exact_mod_cast Int.sub_pos_of_lt (Int.lt_of_le_of_lt after before)
  have nonneg : (0 : Rat) ≤ (v - lower : Int) := by exact_mod_cast Int.sub_nonneg_of_le after
  have shorter : ((v - lower : Int) : Rat) < (upper - lower : Int) := by
    exact_mod_cast Int.sub_lt_sub_right before lower
  refine ⟨div_nonneg nonneg length.le, (div_lt_one length).mpr shorter, ?_⟩
  rw [div_eq_zero_iff, or_iff_left length.ne', Int.cast_eq_zero, Int.sub_eq_zero]

theorem monthsPast_exact {whole past length : Int} (h : 0 < length) :
    monthsPast .exact whole past length = -(whole + past / length) := by
  have cast : ((length.toNat : Nat) : Rat) = length := by
    exact_mod_cast Int.toNat_of_nonneg h.le
  rw [monthsPast, Rat.mkRat_eq_div, cast]
  rfl

/-- A time lies between now moved into some month and now moved into the next one, and the months
between now and the time count up to there. -/
structure Anchored (now value : DateTime) (m : Nat) (part : Rat) : Prop where
  first : 12 ≤ m
  last : m + 1 < 120000
  after : (now.inMonth m).instant ≤ value.instant
  before : value.instant < (now.inMonth (m + 1)).instant
  nonneg : 0 ≤ part
  lt_one : part < 1
  part_eq_zero_iff : part = 0 ↔ value.instant = (now.inMonth m).instant
  months : monthsBetween .exact now value = .ok (now.date.monthIndex - m - part)

theorem exists_anchored {now value : DateTime} (hn : now.IsUniversal) (hv : value.IsUniversal)
    (first : 2 ≤ value.date.year) (last : value.date.year ≤ 9998) :
    ∃ m part, Anchored now value m part := by
  obtain ⟨i, here, inside⟩ :
      ∃ i, value.date.monthIndex = i + 1 ∧ 12 ≤ i ∧ i + 2 < 120000 := by
    have months := ((Date.isValid_iff value.date).mp hv.date).2.1
    refine ⟨value.date.monthIndex - 1, ?_⟩
    rw [Date.monthIndex]
    omega
  have afterPrevious : (now.inMonth i).instant < value.instant :=
    DateTime.instant_lt_of_monthIndex_lt (hn.inMonth inside.1 (by omega)) hv (by simp [here])
  have beforeNext : value.instant < (now.inMonth (i + 2)).instant :=
    DateTime.instant_lt_of_monthIndex_lt hv (hn.inMonth (by omega) inside.2) (by simp [here])
  have previous : now.shiftMonths ((i + 1 : Nat) - now.date.monthIndex - 1) =
      .ok (now.inMonth i) :=
    DateTime.shiftMonths_eq_ok_iff.mpr ⟨i, by omega, by omega, by omega, rfl⟩
  have next : now.shiftMonths ((i + 1 : Nat) - now.date.monthIndex + 1) =
      .ok (now.inMonth (i + 2)) :=
    DateTime.shiftMonths_eq_ok_iff.mpr ⟨i + 2, by omega, by omega, by omega, rfl⟩
  have months := monthsBetween_eq .exact hn hv
  rw [here] at months
  by_cases earlier : value.instant < (now.inMonth (i + 1)).instant
  · obtain ⟨nonneg, ltOne, zero⟩ := part_mem (Int.le_of_lt afterPrevious) earlier
    refine ⟨i, _, inside.1, by omega, Int.le_of_lt afterPrevious, earlier, nonneg, ltOne, zero, ?_⟩
    have length : 0 < (now.inMonth (i + 1)).instant - (now.inMonth i).instant := by omega
    have ne : (((now.inMonth (i + 1)).instant - (now.inMonth i).instant : Int) : Rat) ≠ 0 := by
      exact_mod_cast length.ne'
    rw [months, if_pos earlier, previous, Except.map, monthsPast_exact length, Except.ok.injEq]
    push_cast at ne ⊢
    field_simp
    ring
  · have after := Int.le_of_not_gt earlier
    obtain ⟨nonneg, ltOne, zero⟩ := part_mem after beforeNext
    refine ⟨i + 1, _, by omega, inside.2, after, beforeNext, nonneg, ltOne, zero, ?_⟩
    have length : 0 < (now.inMonth (i + 2)).instant - (now.inMonth (i + 1)).instant := by omega
    rw [months, if_neg earlier, next, Except.map, monthsPast_exact length, Except.ok.injEq]
    push_cast
    ring

/-- The numbers of months by which now can be moved back and not come before a time. -/
def monthsBack (now value : DateTime) : Set Nat :=
  {n | ∃ t, now.shiftMonths (-n) = .ok t ∧ value.instant ≤ t.instant}

/-- The numbers of months by which now can be moved forward and not come after a time. -/
def monthsAhead (now value : DateTime) : Set Nat :=
  {n | ∃ t, now.shiftMonths n = .ok t ∧ t.instant ≤ value.instant}

namespace Anchored
variable {now value : DateTime} {m : Nat} {part : Rat} (h : Anchored now value m part)
  (hn : now.IsUniversal)
include h hn

/-- The first anchor that does not come before the time, and how far it is from now. -/
theorem exists_first (past : value.instant ≤ now.instant) :
    ∃ j, (12 ≤ j ∧ j < 120000) ∧ j ≤ now.date.monthIndex ∧
      value.instant ≤ (now.inMonth j).instant ∧
      (∀ i, 12 ≤ i → i < 120000 → value.instant ≤ (now.inMonth i).instant → j ≤ i) ∧
      truncate (now.date.monthIndex - m - part) = now.date.monthIndex - j := by
  obtain ⟨first, last⟩ := Date.monthIndex_mem hn.date
  have own := DateTime.inMonth_monthIndex hn
  have inside : 12 ≤ m ∧ m < 120000 := ⟨h.first, Nat.lt_of_succ_lt h.last⟩
  by_cases here : value.instant = (now.inMonth m).instant
  · have least (i : Nat) (firstToo : 12 ≤ i) (lastToo : i < 120000)
        (le : value.instant ≤ (now.inMonth i).instant) : m ≤ i := by
      rwa [here, DateTime.inMonth_le_iff hn inside.1 inside.2 firstToo lastToo] at le
    have before : m ≤ now.date.monthIndex := least _ first last (by rwa [own])
    refine ⟨m, inside, before, here.le, least, ?_⟩
    have whole : (now.date.monthIndex - m - part : Rat) = (now.date.monthIndex - m : Nat) + 0 := by
      rw [h.part_eq_zero_iff.mpr here]
      push_cast [before]
      ring
    rw [whole, truncate_natCast_add _ le_rfl one_pos, Int.ofNat_sub before]
  · have least (i : Nat) (firstToo : 12 ≤ i) (lastToo : i < 120000)
        (le : value.instant ≤ (now.inMonth i).instant) : m + 1 ≤ i := by
      have lt := Int.lt_of_lt_of_le (lt_of_le_of_ne h.after (Ne.symm here)) le
      rwa [DateTime.inMonth_lt_iff hn inside.1 inside.2 firstToo lastToo] at lt
    have before : m + 1 ≤ now.date.monthIndex := least _ first last (by rwa [own])
    have past : 0 < part := lt_of_le_of_ne h.nonneg (Ne.symm (mt h.part_eq_zero_iff.mp here))
    refine ⟨m + 1, ⟨Nat.le_succ_of_le inside.1, h.last⟩, before, h.before.le, least, ?_⟩
    have rest : (now.date.monthIndex - m - part : Rat) =
        (now.date.monthIndex - (m + 1) : Nat) + (1 - part) := by
      push_cast [before]
      ring
    rw [rest, truncate_natCast_add _ (sub_nonneg.mpr h.lt_one.le) (sub_lt_self 1 past),
      Int.ofNat_sub before]

theorem isGreatest_monthsBack (past : value.instant ≤ now.instant) :
    ∃ n : Nat, truncate (now.date.monthIndex - m - part) = n ∧
      IsGreatest (monthsBack now value) n := by
  obtain ⟨j, ⟨first, last⟩, before, reached, least, count⟩ := h.exists_first hn past
  refine ⟨now.date.monthIndex - j, by omega, ⟨_, ?_, reached⟩, ?_⟩
  · exact DateTime.shiftMonths_eq_ok_iff.mpr ⟨j, by omega, first, last, rfl⟩
  · rintro n ⟨t, moved, notBefore⟩
    obtain ⟨i, there, firstToo, lastToo, rfl⟩ := DateTime.shiftMonths_eq_ok_iff.mp moved
    have := least i firstToo lastToo notBefore
    omega

theorem isGreatest_monthsAhead (ahead : now.instant ≤ value.instant) :
    ∃ n : Nat, truncate (now.date.monthIndex - m - part) = -n ∧
      IsGreatest (monthsAhead now value) n := by
  obtain ⟨first, last⟩ := Date.monthIndex_mem hn.date
  have notAfter {i : Nat} (firstToo : 12 ≤ i) (lastToo : i < 120000)
      (le : (now.inMonth i).instant ≤ value.instant) : i ≤ m := by
    have lt := Int.lt_of_le_of_lt le h.before
    rw [DateTime.inMonth_lt_iff hn firstToo lastToo (by have := h.first; omega) h.last] at lt
    omega
  have start : now.date.monthIndex ≤ m :=
    notAfter first last (by rwa [DateTime.inMonth_monthIndex hn])
  have count : truncate (now.date.monthIndex - m - part) = -(m - now.date.monthIndex : Nat) := by
    have mirrored : (now.date.monthIndex - m - part : Rat) =
        -((m - now.date.monthIndex : Nat) + part) := by
      push_cast [start]
      ring
    rw [mirrored, truncate_neg, truncate_natCast_add _ h.nonneg h.lt_one]
  refine ⟨m - now.date.monthIndex, count, ⟨_, ?_, h.after⟩, ?_⟩
  · exact DateTime.shiftMonths_eq_ok_iff.mpr
      ⟨m, by omega, h.first, Nat.lt_of_succ_lt h.last, rfl⟩
  · rintro n ⟨t, moved, notLater⟩
    obtain ⟨i, there, firstToo, lastToo, rfl⟩ := DateTime.shiftMonths_eq_ok_iff.mp moved
    have := notAfter firstToo lastToo notLater
    omega

end Anchored

theorem elapsed_of_monthsBetween {round : Rounding} {now value : DateTime} {months : Rat}
    (h : monthsBetween round now value = .ok months) :
    elapsed round now value .month = .ok (truncate months) ∧
      elapsed round now value .quarter = .ok (truncate (round (months / 3))) ∧
      elapsed round now value .year = .ok (truncate (round (months / 12))) := by
  simp only [elapsed, h]
  exact ⟨rfl, rfl, rfl⟩

/-- A difference in months is the greatest number of months by which now can be moved back without
coming before a time of the past, or, negative, forward without coming after a time ahead. Quarters
and years are this number divided by 3 and by 12, toward zero. -/
theorem elapsed_counts_months {now value : DateTime} (hn : now.IsUniversal)
    (hv : value.IsUniversal) (first : 2 ≤ value.date.year) (last : value.date.year ≤ 9998) :
    ∃ months : Int, elapsed .exact now value .month = .ok months ∧
      (value.instant ≤ now.instant →
        ∃ n : Nat, months = n ∧ IsGreatest (monthsBack now value) n) ∧
      (now.instant ≤ value.instant →
        ∃ n : Nat, months = -n ∧ IsGreatest (monthsAhead now value) n) ∧
      elapsed .exact now value .quarter = .ok (months.tdiv 3) ∧
      elapsed .exact now value .year = .ok (months.tdiv 12) := by
  obtain ⟨m, part, anchored⟩ := exists_anchored hn hv first last
  obtain ⟨inMonths, inQuarters, inYears⟩ := elapsed_of_monthsBetween anchored.months
  have third := truncate_div_natCast (now.date.monthIndex - m - part) 3
  have twelfth := truncate_div_natCast (now.date.monthIndex - m - part) 12
  rw [Nat.cast_ofNat] at third twelfth
  exact ⟨_, inMonths, anchored.isGreatest_monthsBack hn, anchored.isGreatest_monthsAhead hn,
    inQuarters.trans (congrArg Except.ok third), inYears.trans (congrArg Except.ok twelfth)⟩

/-- The last day of March moved back a month is the last day of February, a leap day here. -/
theorem elapsed_counts_months_leapDay :
    let now : DateTime := ⟨⟨2020, 3, 31⟩, 12, 0, 0, 0, 0⟩
    let value : DateTime := ⟨⟨2020, 2, 29⟩, 12, 0, 0, 0, 0⟩
    now.IsUniversal ∧ value.IsUniversal ∧ value.instant ≤ now.instant ∧
      elapsed .exact now value .month = .ok 1 ∧ IsGreatest (monthsBack now value) 1 := by
  intro now value
  have hn : now.IsUniversal := ⟨by decide, by decide⟩
  have hv : value.IsUniversal := ⟨by decide, by decide⟩
  have past : value.instant ≤ now.instant := by decide
  have one : (elapsed .exact now value .month).toOption = some 1 := by decide +kernel
  obtain ⟨months, read, back, -⟩ := elapsed_counts_months hn hv (by decide) (by decide)
  rw [read] at one
  obtain rfl : months = 1 := Option.some.inj one
  obtain ⟨n, count, greatest⟩ := back past
  obtain rfl : n = 1 := by omega
  exact ⟨hn, hv, past, read, greatest⟩

end ContentSchema.Calendar
