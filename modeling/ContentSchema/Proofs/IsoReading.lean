import ContentSchema.Proofs.IsoTexts

/-! What is read off the texts of the ISO family, and off every other text. -/
namespace ContentSchema.Calendar
open Text

namespace IsoText

/-- The year that is written. -/
def yearNumber : IsoText → Nat
  | year y | month y _ | date _ y _ _ | moment y _ _ _ _ | week _ y _ | weekday _ y _ _
  | ordinal _ y _ => y

theorem get?_year_reading (form : IsoText) : form.reading.get? .year = some form.yearNumber := by
  cases form <;> rfl

@[simp] theorem flatMap_read_separator (present : Bool) (c : Char) :
    (separator present c).flatMap Segment.read = [] := by
  cases present <;> rfl

theorem onDate_reading (form : IsoText) (named : Date) :
    form.reading.onDate named = form.onDate named := by
  cases form with
  | moment y m d clock zone =>
    cases clock <;>
      simp [Reading.onDate, Reading.get?, reading, segments, ClockText.segments, Segment.read,
        onDate, ClockText.onDate, Reading.lookup_cons]
  | _ =>
    simp [Reading.onDate, Reading.get?, reading, segments, Segment.read, onDate,
      Reading.lookup_cons]

/-- How the date of a text is found. -/
def date? : IsoText → Option Date
  | year y => Date.ofParts? y 1 1
  | month y m => Date.ofParts? y m 1
  | date _ y m d | moment y m d _ _ => Date.ofParts? y m d
  | week _ y w => Date.ofIsoWeek? y w 1
  | weekday _ y w d => Date.ofIsoWeek? y w d
  | ordinal _ y n =>
    if 1 ≤ y.val ∧ 1 ≤ n.val ∧ n ≤ daysInYear y then some (.ofDayOfYear y n) else none

theorem date?_reading (form : IsoText) : form.reading.date? form.yearNumber = form.date? := by
  cases form with
  | moment y m d clock zone =>
    cases clock <;>
      simp [Reading.date?, Reading.get?, reading, segments, ClockText.segments, Segment.read,
        Reading.lookup_cons, yearNumber, date?]
  | ordinal separated y n => cases separated <;> rfl
  | _ =>
    simp [Reading.date?, Reading.get?, reading, segments, Segment.read, Reading.lookup_cons,
      yearNumber, date?]

/-- The date that is found is the one that is meant. -/
theorem date?_eq_some_iff (form : IsoText) {named : Date} :
    form.date? = some named ↔ named.isValid = true ∧ form.NamesDate named := by
  cases form with
  | week separated y w =>
    have last : y.val ≤ 9999 := Nat.le_of_lt_succ y.isLt
    rw [date?, Date.ofIsoWeek?_eq_some_iff, NamesDate]
    exact and_iff_right last
  | weekday separated y w d =>
    have last : y.val ≤ 9999 := Nat.le_of_lt_succ y.isLt
    rw [date?, Date.ofIsoWeek?_eq_some_iff, NamesDate]
    exact and_iff_right last
  | ordinal separated y n =>
    have last : y.val ≤ 9999 := Nat.le_of_lt_succ y.isLt
    rw [date?, Option.ite_none_right_eq_some, NamesDate, Option.some.injEq]
    constructor
    · rintro ⟨⟨first, pos, inYear⟩, found⟩
      exact (Date.ofDayOfYear_eq_iff first last named).mp ⟨pos, inYear, found⟩
    · rintro ⟨valid, same, place⟩
      have first : 1 ≤ y.val := by
        rw [← same]
        exact ((Date.isValid_iff named).mp valid).1.1
      obtain ⟨pos, inYear, found⟩ :=
        (Date.ofDayOfYear_eq_iff first last named).mpr ⟨valid, same, place⟩
      exact ⟨⟨first, pos, inYear⟩, found⟩
  | _ => exact Date.ofParts?_eq_some_iff

theorem isValid_of_isValid_onDate {form : IsoText} {named : Date}
    (valid : (form.onDate named).isValid = true) : named.isValid = true := by
  have date := ((DateTime.isValid_iff _).mp valid).1
  cases form with
  | moment y m d clock zone => cases clock <;> exact date
  | _ => exact date

theorem utc?_reading (form : IsoText) (t : DateTime) :
    form.reading.utc? = some t ↔ form.Denotes t := by
  rw [Reading.utc?_eq_some_iff]
  constructor
  · rintro ⟨year, named, known, found, valid, utc⟩
    rw [get?_year_reading, Option.some.injEq] at known
    rw [← known, date?_reading, date?_eq_some_iff] at found
    rw [onDate_reading] at valid utc
    exact ⟨named, found.2, valid, utc⟩
  · rintro ⟨named, names, valid, utc⟩
    refine ⟨_, named, form.get?_year_reading, ?_, ?_⟩
    · rw [date?_reading, date?_eq_some_iff]
      exact ⟨isValid_of_isValid_onDate valid, names⟩
    · rw [onDate_reading]
      exact ⟨valid, utc⟩

/-- A text is read as what it denotes, the digits being those of any script. -/
theorem readStrict_of_text {form : IsoText} {text : String}
    (same : form.text = text.toList.map western) :
    ∃ found, readStrict isoFormats text = .ok found ∧ ∀ t, found = some t ↔ form.Denotes t := by
  have spelled := form.spelled
  rw [same] at spelled
  exact ⟨_, readStrict_of_spelled form.map_piece_mem spelled, form.utc?_reading⟩

/-- Exactly what the texts denote is read. -/
theorem readStrict_eq_some_iff {text : String} {t : DateTime} :
    readStrict isoFormats text = .ok (some t) ↔
      ∃ form : IsoText, form.text = text.toList.map western ∧ form.Denotes t := by
  constructor
  · intro read
    obtain ⟨layout, known, r, spelled, utc⟩ := exists_spelled_of_readStrict read
    obtain ⟨segments, rfl, rfl, same⟩ := spelled.exists_segments
    obtain ⟨form, rfl⟩ := exists_segments_eq known
    exact ⟨form, same, (form.utc?_reading t).mp utc⟩
  · rintro ⟨form, same, denotes⟩
    obtain ⟨found, read, meaning⟩ := readStrict_of_text same
    rw [read, (meaning t).mpr denotes]

end IsoText

/-- The documented family: a text in the digits of ASCII whose offset, if it has one, is shorter
than a day and has minutes below 60, with what it denotes. -/
def IsoDocumented (text : String) (t : DateTime) : Prop :=
  ∃ form : IsoText, form.text = text.toList ∧ form.ZoneInDay ∧ form.Denotes t

/-- A text is read exactly when it is one of the seventeen shapes in the digits of any script, and
what it denotes exists. This is the documented family exactly where nothing is read, or where the
text is in the digits of ASCII and its offset is shorter than a day and has minutes below 60. -/
theorem readStrict_isoFormats_iff (text : String) :
    ∃ found, readStrict isoFormats text = .ok found ∧
      (∀ t, found = some t ↔
        ∃ form : IsoText, form.text = text.toList.map western ∧ form.Denotes t) ∧
      ((∀ t, found = some t ↔ IsoDocumented text t) ↔
        found = none ∨ ∃ form : IsoText, form.text = text.toList ∧ form.ZoneInDay) := by
  have read := readStrict_isoFormats text
  generalize isoLayouts.findSome? (readLayout text) = found at read
  have accepted (t : DateTime) : found = some t ↔
      ∃ form : IsoText, form.text = text.toList.map western ∧ form.Denotes t := by
    rw [← IsoText.readStrict_eq_some_iff, read, Except.ok.injEq]
  have western_text {form : IsoText} (same : form.text = text.toList) :
      form.text = text.toList.map western := by
    rw [← same, form.map_western_text]
  refine ⟨found, read, accepted, ?_⟩
  constructor
  · intro agrees
    cases found with
    | none => exact .inl rfl
    | some t =>
      obtain ⟨form, same, inDay, -⟩ := (agrees t).mp rfl
      exact .inr ⟨form, same, inDay⟩
  · intro agrees t
    constructor
    · rintro rfl
      obtain nothing | ⟨form, same, inDay⟩ := agrees
      · cases nothing
      · -- the text has one meaning only, so that it denotes what was read
        obtain ⟨_, readToo, meaning⟩ := IsoText.readStrict_of_text (western_text same)
        rw [read, Except.ok.injEq] at readToo
        exact ⟨form, same, inDay, (meaning t).mp readToo.symm⟩
    · rintro ⟨form, same, -, denotes⟩
      exact (accepted t).mpr ⟨form, western_text same, denotes⟩

/-- Digits of other scripts and offsets of more than 59 minutes are read, too. -/
theorem readStrict_isoFormats_undocumented :
    (readStrict isoFormats "٢٠١٩" = .ok (some ⟨⟨2019, 1, 1⟩, 0, 0, 0, 0, 0⟩) ∧
      ∀ t, ¬ IsoDocumented "٢٠١٩" t) ∧
    readStrict isoFormats "2019-03-15T10:30+05:75" =
        .ok (some ⟨⟨2019, 3, 15⟩, 4, 15, 0, 0, 0⟩) ∧
      ∀ t, ¬ IsoDocumented "2019-03-15T10:30+05:75" t := by
  simp only [readStrict_isoFormats, Except.ok.injEq]
  refine ⟨⟨by decide +kernel, ?_⟩, by decide +kernel, ?_⟩
  · rintro t ⟨form, same, -⟩
    have plain := form.map_western_text
    rw [same] at plain
    exact absurd plain (by decide)
  · rintro t ⟨form, same, inDay, -⟩
    have written : "2019-03-15T10:30+05:75".toList =
        (IsoText.moment 2019 3 15 (.minute true 10 30) (.shifted false true 5 75)).text := by decide
    have minutes := inDay (.shifted false true 5 75) (by
      rw [IsoText.segments_eq_of_text_eq (same.trans written)]
      simp [IsoText.segments])
    exact absurd minutes.2 (by decide)

end ContentSchema.Calendar
