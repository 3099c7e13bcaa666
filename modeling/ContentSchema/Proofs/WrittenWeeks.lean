import ContentSchema.Proofs.IsoReading
import ContentSchema.Proofs.WrittenDates

/-! What the week formats write is read back where the week lies in the year of the date. They write
the year of the date beside the week, and they are read by the year of the week. -/
namespace ContentSchema.Calendar
open Text

namespace Date

/-- The Thursday of a week is in one year only, and in one of its weeks. -/
theorem InIsoWeek.unique {d : Date} {year other week weekToo : Nat} (h : d.InIsoWeek year week)
    (h' : d.InIsoWeek other weekToo) : year = other ∧ week = weekToo := by
  obtain ⟨first, thursday, pos, inYear, number, rfl⟩ := h
  obtain ⟨firstToo, thursdayToo, posToo, inYearToo, numberToo, rfl⟩ := h'
  have next := daysBeforeYear_succ first
  have nextToo := daysBeforeYear_succ firstToo
  have ofYear : yearOfDay (d.dayNumber + 4 - d.isoWeekday) = year :=
    yearOfDay_eq first (by omega) (by omega)
  have ofOther : yearOfDay (d.dayNumber + 4 - d.isoWeekday) = other :=
    yearOfDay_eq firstToo (by omega) (by omega)
  obtain rfl : year = other := ofYear.symm.trans ofOther
  exact ⟨rfl, by omega⟩

/-- The first Monday is at most three days before and three days after the first day of a year. -/
theorem firstMonday_mem (year : Nat) :
    (daysBeforeYear year : Int) ≤ firstMonday year + 2 ∧
      firstMonday year ≤ daysBeforeYear year + 4 := by
  obtain ⟨thursday, pos, le7, -, monday, -⟩ := exists_firstThursday year
  omega

/-- The weeks of a year run from its first Monday to the first Monday of the next year. -/
theorem inIsoWeek_of_firstMonday {d : Date} {year : Nat} (first : 1 ≤ year)
    (since : firstMonday year ≤ d.dayNumber) (before : d.dayNumber < firstMonday (year + 1)) :
    d.InIsoWeek year (((d.dayNumber : Int) - firstMonday year) / 7 + 1).toNat := by
  have next := daysBeforeYear_succ first
  obtain ⟨start, pos, le7, weekday4, monday, -⟩ := exists_firstThursday year
  obtain ⟨startNext, posNext, le7Next, weekday4Next, mondayNext, -⟩ :=
    exists_firstThursday (year + 1)
  refine ⟨first, d.dayNumber + 4 - d.isoWeekday - daysBeforeYear year, ?_⟩
  rw [isoWeekday]
  omega

/-- The week that is computed for a date is the one that it lies in. -/
theorem inIsoWeek_isoWeek {d : Date} (valid : d.isValid = true) :
    d.InIsoWeek d.isoWeek.year d.isoWeek.week := by
  obtain ⟨⟨first, -⟩, -⟩ := (isValid_iff d).mp valid
  obtain ⟨after, before⟩ := dayNumber_mem valid
  have monday := firstMonday_mem d.year
  have mondayNext := firstMonday_mem (d.year + 1)
  simp only [isoWeek]
  by_cases early : (d.dayNumber : Int) < firstMonday d.year
  · rw [if_pos early]
    have notFirst : d.year ≠ 1 := by
      intro same
      have monday1 : firstMonday 1 = 1 := rfl
      rw [same, monday1] at early
      omega
    obtain ⟨previous, same⟩ : ∃ previous, d.year = previous + 1 := ⟨d.year - 1, by omega⟩
    rw [same] at early after
    rw [same, Nat.add_sub_cancel]
    have pos : 1 ≤ previous := by omega
    have days := daysBeforeYear_succ pos
    have long := daysInYear_mem previous
    have mondayBefore := firstMonday_mem previous
    have inPrevious : d.InIsoWeek previous _ :=
      inIsoWeek_of_firstMonday pos (by omega) early
    exact inPrevious
  · rw [if_neg early]
    by_cases late : firstMonday (d.year + 1) ≤ d.dayNumber
    · rw [if_pos late]
      have days := daysBeforeYear_succ (Nat.le_add_left 1 d.year)
      have long := daysInYear_mem (d.year + 1)
      have mondayAfter := firstMonday_mem (d.year + 1 + 1)
      have week1 : (((d.dayNumber : Int) - firstMonday (d.year + 1)) / 7 + 1).toNat = 1 := by omega
      have inNext : d.InIsoWeek (d.year + 1) _ :=
        inIsoWeek_of_firstMonday (Nat.le_add_left 1 d.year) late (by omega)
      rwa [week1] at inNext
    · rw [if_neg late]
      have inYear : d.InIsoWeek d.year _ := inIsoWeek_of_firstMonday first (by omega) (by omega)
      exact inYear

theorem InIsoWeek.week_le {d : Date} {year week : Nat} (h : d.InIsoWeek year week) :
    week ≤ 53 := by
  obtain ⟨-, thursday, pos, inYear, -, rfl⟩ := h
  have days := daysInYear_mem year
  omega

/-- The Monday from which a week with this date runs. -/
structure IsWeekStart (monday d : Date) : Prop where
  valid : monday.isValid = true
  onMonday : monday.isoWeekday = 1
  notAfter : monday.dayNumber ≤ d.dayNumber
  within : d.dayNumber < monday.dayNumber + 7

theorem exists_weekStart {d : Date} (valid : d.isValid = true) :
    ∃ monday : Date, monday.IsWeekStart d := by
  have last := dayNumber_le valid
  obtain ⟨after, -⟩ := dayNumber_mem valid
  have weekday := isoWeekday_mem d
  -- the first day of year 1 is a Monday, so that no week starts before it
  have inside : 1 ≤ (d.dayNumber + 1 - d.isoWeekday : Int) ∧
      (d.dayNumber + 1 - d.isoWeekday : Int) ≤ lastDayNumber := by
    rw [isoWeekday] at weekday ⊢
    omega
  obtain ⟨monday, known⟩ : ∃ monday, ofDayNumber? (d.dayNumber + 1 - d.isoWeekday) = some monday :=
    ⟨_, if_pos inside⟩
  obtain ⟨valid, number⟩ := ofDayNumber?_eq_some_iff.mp known
  refine ⟨monday, valid, ?_, by omega, by omega⟩
  simp only [isoWeekday] at number ⊢
  omega

/-- The days of a week lie in the same week of the same year. -/
theorem IsWeekStart.inIsoWeek_iff {monday d : Date} (start : monday.IsWeekStart d)
    {year week : Nat} : monday.InIsoWeek year week ↔ d.InIsoWeek year week := by
  obtain ⟨-, onMonday, notAfter, within⟩ := start
  have same : monday.dayNumber + d.isoWeekday = d.dayNumber + monday.isoWeekday := by
    rw [isoWeekday] at onMonday ⊢
    rw [isoWeekday]
    omega
  rw [InIsoWeek, InIsoWeek]
  refine and_congr_right fun _ => exists_congr fun thursday => and_congr_right fun _ =>
    and_congr_right fun _ => and_congr_left fun _ => ?_
  omega

end Date

/-- Midnight in universal time. -/
def DateTime.midnight (d : Date) : DateTime := ⟨d, 0, 0, 0, 0, 0⟩

theorem DateTime.midnight_inj {d e : Date} (same : midnight d = midnight e) : d = e :=
  congrArg DateTime.date same

theorem DateTime.isValid_midnight {d : Date} : (midnight d).isValid = true ↔ d.isValid = true := by
  simp [isValid_iff, midnight]

theorem DateTime.IsUtcOf.unique {t u v : DateTime} (h : u.IsUtcOf t) (h' : v.IsUtcOf t) : u = v := by
  rw [← toUtc?_eq_some_iff] at h h'
  exact Option.some.inj (h.symm.trans h')

/-- A text without a time denotes midnight of the date that is meant. -/
theorem IsoText.denotes_iff {form : IsoText} (noTime : ∀ d, form.onDate d = .midnight d)
    {u : DateTime} : form.Denotes u ↔
      ∃ named : Date, form.NamesDate named ∧ named.isValid = true ∧ u = .midnight named := by
  refine exists_congr fun named => and_congr_right fun _ => ?_
  rw [noTime]
  constructor
  · rintro ⟨valid, utc⟩
    exact ⟨DateTime.isValid_midnight.mp valid, utc.unique (.self valid rfl)⟩
  · rintro ⟨valid, rfl⟩
    have valid := DateTime.isValid_midnight.mpr valid
    exact ⟨valid, .self valid rfl⟩

/-- An ISO format with a week is one of the four week formats. -/
theorem layout_of_week : ∀ layout ∈ isoLayouts, .week ∈ layout.filterMap Piece.component? →
    ∃ separated,
      .weekday ∉ layout.filterMap Piece.component? ∧
          layout = (IsoText.week separated 0 0).segments.map Segment.piece ∨
        .weekday ∈ layout.filterMap Piece.component? ∧
          layout = (IsoText.weekday separated 0 0 0).segments.map Segment.piece := by
  decide +kernel

namespace DateTime
variable {t : DateTime}

theorem written_exactly (c : Char) : t.written (.exactly c) = [c] := rfl

theorem written_digits {component : Component} {width : Nat} (pos : 0 < width)
    {n : Fin (10 ^ width)} (part : t.part component = n.val) :
    t.written (.digits component width) = lastDigits width n := by
  rw [written, part, Int.toNat_natCast, toList_padded pos n.isLt]

/-- The text that a week format writes has the year of the date and the week of the date. -/
theorem exists_text_of_week (valid : t.isValid = true) {layout : List Piece}
    (known : layout ∈ isoLayouts) (week : .week ∈ layout.filterMap Piece.component?) :
    ∃ form : IsoText, form.text = layout.flatMap t.written ∧
      (∀ d, form.onDate d = .midnight d) ∧
      ∀ named, form.NamesDate named ↔ named.InIsoWeek t.date.year t.date.isoWeek.week ∧
        named.isoWeekday =
          if .weekday ∈ layout.filterMap Piece.component? then t.date.isoWeekday else 1 := by
  have date := ((isValid_iff t).mp valid).1
  have year := ((Date.isValid_iff t.date).mp date).1.2
  have weeks := (Date.inIsoWeek_isoWeek date).week_le
  have weekdays := (Date.isoWeekday_mem t.date).2
  let y : Fin (10 ^ 4) := ⟨t.date.year, by omega⟩
  let w : Fin (10 ^ 2) := ⟨t.date.isoWeek.week, by omega⟩
  let d : Fin (10 ^ 1) := ⟨t.date.isoWeekday, by omega⟩
  have yearText : t.written (.digits .year 4) = lastDigits 4 y := written_digits (by decide) rfl
  have weekText : t.written (.digits .week 2) = lastDigits 2 w := written_digits (by decide) rfl
  have weekdayText : t.written (.digits .weekday 1) = lastDigits 1 d :=
    written_digits (by decide) rfl
  obtain ⟨separated, ⟨noWeekday, rfl⟩ | ⟨weekday, rfl⟩⟩ := layout_of_week layout known week
  · refine ⟨.week separated y w, ?_, fun _ => rfl, fun named => ?_⟩
    · cases separated <;>
        simp [IsoText.text, IsoText.segments, separator, Segment.piece, Segment.text, yearText,
          weekText, written_exactly]
    · rw [if_neg noWeekday]
      rfl
  · refine ⟨.weekday separated y w d, ?_, fun _ => rfl, fun named => ?_⟩
    · cases separated <;>
        simp [IsoText.text, IsoText.segments, separator, Segment.piece, Segment.text, yearText,
          weekText, weekdayText, written_exactly]
    · rw [if_pos weekday]
      rfl

end DateTime

/-- What a week format writes is read back as the weekday, or else the Monday, of the week of the
date in the year of the date, if this year has such a week. This is the day of the date, or else the
Monday of its week, exactly where the week belongs to the year of the date. -/
theorem readStrict_weekFormat (round : Rounding) {t : DateTime} (valid : t.isValid = true)
    {format : String} (iso : format ∈ isoFormats) (week : .week ∈ componentsOf format) :
    ∃ text found monday, t.format round format = .ok text ∧
      readStrict isoFormats text = .ok found ∧ monday.IsWeekStart t.date ∧
      (∀ u, found = some u ↔ ∃ named : Date,
        (named.InIsoWeek t.date.year t.date.isoWeek.week ∧ named.isoWeekday =
          if .weekday ∈ componentsOf format then t.date.isoWeekday else 1) ∧
        named.isValid = true ∧ u = .midnight named) ∧
      (found = some (.midnight (if .weekday ∈ componentsOf format then t.date else monday)) ↔
        ∃ number, t.date.InIsoWeek t.date.year number) := by
  obtain ⟨layout, known, isLayout⟩ := exists_mem_of_mapM mapM_pieces_isoFormats iso
  have components : componentsOf format = layout.filterMap Piece.component? := by
    rw [componentsOf, isLayout]
  rw [components] at week ⊢
  have date := ((DateTime.isValid_iff t).mp valid).1
  obtain ⟨form, text, noTime, names⟩ := DateTime.exists_text_of_week valid known week
  have spelled : form.text = (String.ofList form.text).toList.map western := by
    rw [String.toList_ofList, form.map_western_text]
  obtain ⟨found, read, meaning⟩ := IsoText.readStrict_of_text spelled
  obtain ⟨monday, start⟩ := Date.exists_weekStart date
  have written := t.format_eq_of_pieces round isLayout
  rw [← text] at written
  have readAs (u : DateTime) := (meaning u).trans (form.denotes_iff noTime)
  simp only [names] at readAs
  refine ⟨_, found, monday, written, read, start, readAs, ?_⟩
  have own {number : Nat} (h : t.date.InIsoWeek t.date.year number) :
      t.date.InIsoWeek t.date.year t.date.isoWeek.week := by
    obtain ⟨year, -⟩ := (Date.inIsoWeek_isoWeek date).unique h
    have known := Date.inIsoWeek_isoWeek date
    rwa [year] at known
  -- the day that should come back is in the week of the date, on the weekday that is read
  have kept : let day := if .weekday ∈ layout.filterMap Piece.component? then t.date else monday
      (∀ year week, day.InIsoWeek year week ↔ t.date.InIsoWeek year week) ∧
        (day.isoWeekday =
          if .weekday ∈ layout.filterMap Piece.component? then t.date.isoWeekday else 1) ∧
        day.isValid = true := by
    dsimp only
    split
    · exact ⟨fun _ _ => Iff.rfl, rfl, date⟩
    · exact ⟨fun _ _ => start.inIsoWeek_iff, start.onMonday, start.valid⟩
  obtain ⟨inWeek, onWeekday, validDay⟩ := kept
  rw [readAs]
  constructor
  · rintro ⟨named, ⟨namedInWeek, -⟩, -, same⟩
    rw [← DateTime.midnight_inj same, inWeek] at namedInWeek
    exact ⟨_, namedInWeek⟩
  · rintro ⟨number, h⟩
    exact ⟨_, ⟨(inWeek _ _).mpr (own h), onWeekday⟩, validDay, rfl⟩

/-- The last day of 2020 is in the last week of 2020 and comes back. -/
theorem readStrict_weekFormat_lastDay :
    ∃ text, DateTime.format .exact ⟨⟨2020, 12, 31⟩, 23, 59, 59, 0, 0⟩ "YYYY-[W]WW-E" = .ok text ∧
      readStrict isoFormats text = .ok (some (.midnight ⟨2020, 12, 31⟩)) := by
  have components : componentsOf "YYYY-[W]WW-E" = [.year, .week, .weekday] := by decide +kernel
  have iso : "YYYY-[W]WW-E" ∈ isoFormats := by decide
  obtain ⟨text, found, monday, written, read, -, -, kept⟩ :=
    readStrict_weekFormat .exact (t := ⟨⟨2020, 12, 31⟩, 23, 59, 59, 0, 0⟩) (by decide) iso
      (by rw [components]; decide)
  have inYear : Date.InIsoWeek ⟨2020, 12, 31⟩ 2020 53 :=
    ⟨by decide, 366, by decide, by decide, by decide, by decide⟩
  rw [components] at kept
  rw [kept.mpr ⟨53, inYear⟩] at read
  exact ⟨text, written, read⟩

/-- Monday the 30th of December 2019 is in the first week of 2020. It is written as a day of the
first week of 2019, which is a year earlier. -/
theorem readStrict_weekFormat_newYear :
    DateTime.format .exact (.midnight ⟨2019, 12, 30⟩) "YYYY-[W]WW" = .ok "2019-W01" ∧
      readStrict isoFormats "2019-W01" = .ok (some (.midnight ⟨2018, 12, 31⟩)) ∧
      Date.IsWeekStart ⟨2019, 12, 30⟩ ⟨2019, 12, 30⟩ ∧
      ¬ Date.IsWeekStart ⟨2018, 12, 31⟩ ⟨2019, 12, 30⟩ := by
  have layout : pieces "YYYY-[W]WW" =
      .ok [.digits .year 4, .exactly '-', .exactly 'W', .digits .week 2] := by cbv
  refine ⟨?_, ?_, ⟨by decide, by decide, by decide, by decide⟩, ?_⟩
  · rw [DateTime.format_eq_of_pieces _ _ layout, Except.ok.injEq]
    decide +kernel
  · rw [readStrict_isoFormats, Except.ok.injEq]
    decide +kernel
  · exact fun start => absurd start.within (by decide)

end ContentSchema.Calendar
