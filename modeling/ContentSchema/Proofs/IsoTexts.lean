import ContentSchema.Proofs.IsoLayouts
import ContentSchema.Proofs.WeekDates

/-! The texts of the ISO family and the dates and times that they denote. -/
namespace ContentSchema.Calendar
open Text

namespace ZoneText

theorem digitChar_ne_colon (n : Nat) : Nat.digitChar (n % 10) ≠ ':' := by
  intro same
  have digit := digitValue?_digitChar (n % 10) (Nat.mod_lt n (by decide))
  have noDigit : digitValue? ':' = none := by decide
  rw [same, noDigit] at digit
  cases digit

theorem shiftText_append_inj {separated other : Bool} {h k m n : Fin (10 ^ 2)} {cs ds : List Char}
    (same : shiftText separated h m ++ cs = shiftText other k n ++ ds) :
    separated = other ∧ h = k ∧ m = n ∧ cs = ds := by
  simp only [shiftText, List.append_assoc] at same
  obtain ⟨hours, same⟩ := lastDigits_append_inj same
  cases separated <;> cases other
  · obtain ⟨minutes, rest⟩ := lastDigits_append_inj same
    exact ⟨rfl, hours, minutes, rest⟩
  · exact absurd (List.cons.inj same).1 (digitChar_ne_colon _)
  · exact absurd (List.cons.inj same).1.symm (digitChar_ne_colon _)
  · obtain ⟨minutes, rest⟩ := lastDigits_append_inj (List.cons.inj same).2
    exact ⟨rfl, hours, minutes, rest⟩

/-- An offset ends where its text ends. -/
theorem text_append_inj {zone other : ZoneText} {cs ds : List Char}
    (same : zone.text ++ cs = other.text ++ ds) : zone = other ∧ cs = ds := by
  obtain capital | ⟨west, separated, hours, minutes⟩ := zone <;>
    obtain capital' | ⟨west', separated', hours', minutes'⟩ := other <;>
    obtain ⟨mark, rest⟩ := List.cons.inj same
  -- the first character tells a letter from a sign
  · have letter : capital = capital' := by
      cases capital <;> cases capital' <;> first | rfl | cases mark
    exact ⟨by rw [letter], rest⟩
  · cases capital <;> cases west' <;> cases mark
  · cases capital' <;> cases west <;> cases mark
  · obtain ⟨rfl, rfl, rfl, tail⟩ := shiftText_append_inj rest
    have sign : west = west' := by
      cases west <;> cases west' <;> first | rfl | cases mark
    exact ⟨by rw [sign], tail⟩

end ZoneText

/-- A part of a written date and time. -/
inductive Segment where
  | literal (c : Char)
  | number (component : Component) {width : Nat} (n : Fin (10 ^ width))
  | zone (zone : ZoneText)

namespace Segment

def text : Segment → List Char
  | literal c => [c]
  | @number _ width n => lastDigits width n
  | zone z => z.text

def piece : Segment → Piece
  | literal c => .exactly c
  | @number component width _ => .digits component width
  | zone _ => .offset

def read : Segment → Reading
  | literal _ => []
  | number component n => [(component, (n : Int))]
  | zone z => [(.offset, z.seconds)]

variable {segments : List Segment} {layout : List Piece}

theorem map_piece_eq_exactly {c : Char} : segments.map piece = .exactly c :: layout ↔
    ∃ rest, segments = literal c :: rest ∧ rest.map piece = layout := by
  rw [List.map_eq_cons_iff]
  constructor
  · rintro ⟨segment, rest, rfl, first, others⟩
    cases segment <;> cases first
    exact ⟨rest, rfl, others⟩
  · rintro ⟨rest, rfl, others⟩
    exact ⟨_, rest, rfl, rfl, others⟩

theorem map_piece_eq_digits {component : Component} {width : Nat} :
    segments.map piece = .digits component width :: layout ↔
      ∃ (n : Fin (10 ^ width)) (rest : List Segment),
        segments = number component n :: rest ∧ rest.map piece = layout := by
  rw [List.map_eq_cons_iff]
  constructor
  · rintro ⟨segment, rest, rfl, first, others⟩
    cases segment <;> cases first
    exact ⟨_, rest, rfl, others⟩
  · rintro ⟨n, rest, rfl, others⟩
    exact ⟨_, rest, rfl, rfl, others⟩

theorem map_piece_eq_offset : segments.map piece = .offset :: layout ↔
    ∃ z rest, segments = zone z :: rest ∧ rest.map piece = layout := by
  rw [List.map_eq_cons_iff]
  constructor
  · rintro ⟨segment, rest, rfl, first, others⟩
    cases segment <;> cases first
    exact ⟨_, rest, rfl, others⟩
  · rintro ⟨z, rest, rfl, others⟩
    exact ⟨_, rest, rfl, rfl, others⟩

/-- What a text says is known from its layout and its characters. -/
theorem eq_of_text_eq {others : List Segment} (layout : segments.map piece = others.map piece)
    (same : segments.flatMap text = others.flatMap text) : segments = others := by
  induction segments generalizing others with
  | nil => exact (List.map_eq_nil_iff.mp layout.symm).symm
  | cons segment segments ih =>
    rw [List.map_cons] at layout
    rw [List.flatMap_cons] at same
    cases segment with
    | literal c =>
      obtain ⟨rest, rfl, tail⟩ := map_piece_eq_exactly.mp layout.symm
      rw [ih tail.symm (List.cons.inj same).2]
    | number component n =>
      obtain ⟨m, rest, rfl, tail⟩ := map_piece_eq_digits.mp layout.symm
      obtain ⟨rfl, rest⟩ := lastDigits_append_inj same
      rw [ih tail.symm rest]
    | zone z =>
      obtain ⟨other, rest, rfl, tail⟩ := map_piece_eq_offset.mp layout.symm
      obtain ⟨rfl, rest⟩ := ZoneText.text_append_inj same
      rw [ih tail.symm rest]

end Segment

theorem spelled_segments (segments : List Segment) :
    Spelled (segments.map Segment.piece) (segments.flatMap Segment.read)
      (segments.flatMap Segment.text) := by
  induction segments with
  | nil => exact .nil
  | cons segment segments ih =>
    cases segment with
    | literal c => exact .exactly c ih
    | number component n => exact .digits component n ih
    | zone z => exact .offset z ih

theorem Spelled.exists_segments {layout : List Piece} {r : Reading} {cs : List Char}
    (spelled : Spelled layout r cs) :
    ∃ segments : List Segment, segments.map Segment.piece = layout ∧
      segments.flatMap Segment.read = r ∧ segments.flatMap Segment.text = cs := by
  induction spelled with
  | nil => exact ⟨[], rfl, rfl, rfl⟩
  | exactly c _ ih =>
    obtain ⟨segments, rfl, rfl, rfl⟩ := ih
    exact ⟨.literal c :: segments, rfl, rfl, rfl⟩
  | digits component n _ ih =>
    obtain ⟨segments, rfl, rfl, rfl⟩ := ih
    exact ⟨.number component n :: segments, rfl, rfl, rfl⟩
  | offset z _ ih =>
    obtain ⟨segments, rfl, rfl, rfl⟩ := ih
    exact ⟨.zone z :: segments, rfl, rfl, rfl⟩

/-- A time of day as it is written, with or without colons. -/
inductive ClockText where
  | hour (hour : Fin (10 ^ 2))
  | minute (separated : Bool) (hour minute : Fin (10 ^ 2))
  | second (separated : Bool) (hour minute second : Fin (10 ^ 2))
  | millisecond (separated : Bool) (hour minute second : Fin (10 ^ 2)) (milli : Fin (10 ^ 3))

/-- A date as it is written, with or without dashes. A date with dashes may carry a time. -/
inductive IsoText where
  | year (year : Fin (10 ^ 4))
  | month (year : Fin (10 ^ 4)) (month : Fin (10 ^ 2))
  | date (separated : Bool) (year : Fin (10 ^ 4)) (month day : Fin (10 ^ 2))
  | moment (year : Fin (10 ^ 4)) (month day : Fin (10 ^ 2)) (clock : ClockText) (zone : ZoneText)
  | week (separated : Bool) (year : Fin (10 ^ 4)) (week : Fin (10 ^ 2))
  | weekday (separated : Bool) (year : Fin (10 ^ 4)) (week : Fin (10 ^ 2)) (weekday : Fin (10 ^ 1))
  | ordinal (separated : Bool) (year : Fin (10 ^ 4)) (day : Fin (10 ^ 3))

/-- A separator, if there is one. -/
def separator (present : Bool) (c : Char) : List Segment := if present then [.literal c] else []

namespace ClockText

def segments : ClockText → List Segment
  | hour h => [.number .hour h]
  | minute separated h m => .number .hour h :: separator separated ':' ++ [.number .minute m]
  | second separated h m s =>
    .number .hour h :: separator separated ':' ++ .number .minute m :: separator separated ':' ++
      [.number .second s]
  | millisecond separated h m s milli =>
    .number .hour h :: separator separated ':' ++ .number .minute m :: separator separated ':' ++
      [.number .second s, .literal '.', .number .millis milli]

/-- The time on a date with an offset in seconds; what is not written is zero. -/
def onDate (date : Date) (offset : Int) : ClockText → DateTime
  | hour h => ⟨date, h, 0, 0, 0, offset⟩
  | minute _ h m => ⟨date, h, m, 0, 0, offset⟩
  | second _ h m s => ⟨date, h, m, s, 0, offset⟩
  | millisecond _ h m s milli => ⟨date, h, m, s, milli * 1000, offset⟩

end ClockText

/-- At most 23 hours and 59 minutes. -/
def ZoneText.InDay : ZoneText → Prop
  | universal _ => True
  | shifted _ _ hours minutes => hours.val ≤ 23 ∧ minutes.val ≤ 59

namespace IsoText

def segments : IsoText → List Segment
  | year y => [.number .year y]
  | month y m => [.number .year y, .literal '-', .number .month m]
  | date separated y m d =>
    .number .year y :: separator separated '-' ++ .number .month m :: separator separated '-' ++
      [.number .day d]
  | moment y m d clock zone =>
    [.number .year y, .literal '-', .number .month m, .literal '-', .number .day d, .literal 'T'] ++
      clock.segments ++ [.zone zone]
  | week separated y w =>
    .number .year y :: separator separated '-' ++ [.literal 'W', .number .week w]
  | weekday separated y w d =>
    .number .year y :: separator separated '-' ++ .literal 'W' :: .number .week w ::
      separator separated '-' ++ [.number .weekday d]
  | ordinal separated y n => .number .year y :: separator separated '-' ++ [.number .ordinal n]

def text (form : IsoText) : List Char := form.segments.flatMap Segment.text

/-- The date that is meant. A month or a day that is not written is the first one, and so is the
weekday. -/
def NamesDate : IsoText → Date → Prop
  | year y, named => named = ⟨y, 1, 1⟩
  | month y m, named => named = ⟨y, m, 1⟩
  | date _ y m d, named => named = ⟨y, m, d⟩
  | moment y m d _ _, named => named = ⟨y, m, d⟩
  | week _ y w, named => named.InIsoWeek y w ∧ named.isoWeekday = 1
  | weekday _ y w d, named => named.InIsoWeek y w ∧ named.isoWeekday = d
  | ordinal _ y n, named => named.year = y ∧ named.dayOfYear = n

/-- The time that is meant, on a date. Without a time this is midnight in universal time. -/
def onDate (named : Date) : IsoText → DateTime
  | moment _ _ _ clock zone => clock.onDate named zone.seconds
  | _ => ⟨named, 0, 0, 0, 0, 0⟩

/-- What is written exists in the years 1 to 9999, and so does the same instant in universal
time. -/
def Denotes (form : IsoText) (t : DateTime) : Prop :=
  ∃ named, form.NamesDate named ∧ (form.onDate named).isValid = true ∧
    t.IsUtcOf (form.onDate named)

/-- An offset, if there is one, is shorter than a day and has minutes below 60. -/
def ZoneInDay (form : IsoText) : Prop := ∀ z, .zone z ∈ form.segments → z.InDay

end IsoText

theorem ClockText.exists_segments_eq {segments : List Segment}
    (known : segments.map Segment.piece ∈ clockLayouts) :
    ∃ clock : ClockText, clock.segments = segments := by
  simp only [clockLayouts, List.mem_cons, List.not_mem_nil, or_false, Segment.map_piece_eq_digits,
    Segment.map_piece_eq_exactly, List.map_eq_nil_iff] at known
  obtain ⟨h, _, rfl, rfl⟩ | ⟨h, _, rfl, _, rfl, m, _, rfl, rfl⟩ | ⟨h, _, rfl, m, _, rfl, rfl⟩ |
    ⟨h, _, rfl, _, rfl, m, _, rfl, _, rfl, s, _, rfl, rfl⟩ |
    ⟨h, _, rfl, m, _, rfl, s, _, rfl, rfl⟩ |
    ⟨h, _, rfl, _, rfl, m, _, rfl, _, rfl, s, _, rfl, _, rfl, milli, _, rfl, rfl⟩ |
    ⟨h, _, rfl, m, _, rfl, s, _, rfl, _, rfl, milli, _, rfl, rfl⟩ := known
  · exact ⟨.hour h, rfl⟩
  · exact ⟨.minute true h m, rfl⟩
  · exact ⟨.minute false h m, rfl⟩
  · exact ⟨.second true h m s, rfl⟩
  · exact ⟨.second false h m s, rfl⟩
  · exact ⟨.millisecond true h m s milli, rfl⟩
  · exact ⟨.millisecond false h m s milli, rfl⟩

theorem ClockText.map_piece_mem (clock : ClockText) :
    clock.segments.map Segment.piece ∈ clockLayouts := by
  cases clock with
  | hour h => simp [segments, Segment.piece, clockLayouts]
  | minute separated h m =>
    cases separated <;> simp [segments, Segment.piece, separator, clockLayouts]
  | second separated h m s =>
    cases separated <;> simp [segments, Segment.piece, separator, clockLayouts]
  | millisecond separated h m s milli =>
    cases separated <;> simp [segments, Segment.piece, separator, clockLayouts]

namespace IsoText

/-- The texts have the seventeen layouts. -/
theorem map_piece_mem (form : IsoText) : form.segments.map Segment.piece ∈ isoLayouts := by
  cases form with
  | moment y m d clock zone =>
    have here : (moment y m d clock zone).segments.map Segment.piece =
        momentLayout (clock.segments.map Segment.piece) := by
      simp [segments, Segment.piece, momentLayout]
    have inClocks := List.mem_map_of_mem (f := momentLayout) clock.map_piece_mem
    simp only [isoLayouts, here, List.mem_cons, List.mem_append, inClocks, true_or, or_true]
  | year y => simp [segments, Segment.piece, isoLayouts]
  | month y m => simp [segments, Segment.piece, isoLayouts]
  | date separated y m d =>
    cases separated <;> simp [segments, Segment.piece, separator, isoLayouts]
  | week separated y w =>
    cases separated <;> simp [segments, Segment.piece, separator, isoLayouts]
  | weekday separated y w d =>
    cases separated <;> simp [segments, Segment.piece, separator, isoLayouts]
  | ordinal separated y n =>
    cases separated <;> simp [segments, Segment.piece, separator, isoLayouts]

/-- Whatever has one of the seventeen layouts is one of the texts. -/
theorem exists_segments_eq {segments : List Segment}
    (known : segments.map Segment.piece ∈ isoLayouts) :
    ∃ form : IsoText, form.segments = segments := by
  rw [isoLayouts] at known
  simp only [List.mem_cons, List.mem_append, List.mem_map, List.not_mem_nil, or_false,
    Segment.map_piece_eq_digits, Segment.map_piece_eq_exactly, List.map_eq_nil_iff] at known
  obtain ⟨y, _, rfl, rfl⟩ | ⟨y, _, rfl, _, rfl, m, _, rfl, rfl⟩ |
    ⟨y, _, rfl, _, rfl, m, _, rfl, _, rfl, d, _, rfl, rfl⟩ |
    ⟨y, _, rfl, m, _, rfl, d, _, rfl, rfl⟩ | ⟨clock, inClocks, same⟩ | known := known
  · exact ⟨.year y, rfl⟩
  · exact ⟨.month y m, rfl⟩
  · exact ⟨.date true y m d, rfl⟩
  · exact ⟨.date false y m d, rfl⟩
  · have same := same.symm
    simp only [momentLayout, Segment.map_piece_eq_digits, Segment.map_piece_eq_exactly,
      List.map_eq_append_iff, Segment.map_piece_eq_offset, List.map_eq_nil_iff] at same
    obtain ⟨y, _, rfl, _, rfl, m, _, rfl, _, rfl, d, _, rfl, _, rfl, times, _, rfl, rfl, z, _, rfl,
      rfl⟩ := same
    obtain ⟨clock, rfl⟩ := ClockText.exists_segments_eq inClocks
    exact ⟨.moment y m d clock z, rfl⟩
  · obtain ⟨y, _, rfl, _, rfl, _, rfl, w, _, rfl, rfl⟩ | ⟨y, _, rfl, _, rfl, w, _, rfl, rfl⟩ |
      ⟨y, _, rfl, _, rfl, _, rfl, w, _, rfl, _, rfl, d, _, rfl, rfl⟩ |
      ⟨y, _, rfl, _, rfl, w, _, rfl, d, _, rfl, rfl⟩ |
      ⟨y, _, rfl, _, rfl, n, _, rfl, rfl⟩ | ⟨y, _, rfl, n, _, rfl, rfl⟩ := known
    · exact ⟨.week true y w, rfl⟩
    · exact ⟨.week false y w, rfl⟩
    · exact ⟨.weekday true y w d, rfl⟩
    · exact ⟨.weekday false y w d, rfl⟩
    · exact ⟨.ordinal true y n, rfl⟩
    · exact ⟨.ordinal false y n, rfl⟩

/-- The numbers of a text. -/
def reading (form : IsoText) : Reading := form.segments.flatMap Segment.read

theorem spelled (form : IsoText) :
    Spelled (form.segments.map Segment.piece) form.reading form.text :=
  spelled_segments form.segments

theorem map_western_text (form : IsoText) : form.text.map western = form.text :=
  form.spelled.map_western (literalsPlain_of_mem form.map_piece_mem)

/-- No text is ambiguous. -/
theorem segments_eq_of_text_eq {form other : IsoText} (same : form.text = other.text) :
    form.segments = other.segments := by
  have spelled := form.spelled
  rw [same] at spelled
  exact Segment.eq_of_text_eq
    (eq_of_spelled other.map_piece_mem form.map_piece_mem other.spelled spelled) same

end IsoText
end ContentSchema.Calendar
