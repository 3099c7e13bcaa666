import ContentSchema.Calendar.Rendering
import ContentSchema.Proofs.IsoLayouts
import ContentSchema.Proofs.UniversalTime
import ContentSchema.Proofs.WeekDates

/-! A date and time written by an ISO format is read back, as far as the format writes it. -/
namespace ContentSchema.Calendar
open Text

namespace DateTime

/-- The number that is written for a component. -/
def part (t : DateTime) : Component → Int
  | .year => t.date.year
  | .month => t.date.month
  | .day => t.date.day
  | .ordinal => t.date.dayOfYear
  | .hour => t.hour
  | .minute => t.minute
  | .second => t.second
  | .millis => t.millisecond
  | .week => t.date.isoWeek.week
  | .weekday => t.date.isoWeekday
  | .offset => t.offset

/-- The numbers that are written for some components. -/
def parts (t : DateTime) (components : List Component) : Reading :=
  components.map fun c => (c, t.part c)

/-- What is written for a piece of a layout. -/
def written (t : DateTime) : Piece → List Char
  | .exactly c => [c]
  | .digits component count => (padded count (t.part component).toNat).toList
  | .offset => (offsetText ":" t.offset).toList

/-- A number is never shorter than one digit. -/
theorem toList_padded_one (n : Nat) : (toString n).toList = (padded 1 n).toList := by
  have filled : 1 - (Nat.toDigits 10 n).length = 0 := Nat.sub_eq_zero_of_le Nat.length_toDigits_pos
  rw [padded, String.toList_ofList, filled, List.replicate_zero, List.nil_append,
    Nat.toString_eq_ofList_toDigits, String.toList_ofList]

theorem toList_render (round : Rounding) (t : DateTime) {p : Placeholder} {piece : Piece}
    (h : p.piece? = some piece) : (t.render round p).toList = t.written piece := by
  cases p <;> cases h <;> first | rfl | exact toList_padded_one _

theorem toList_renderToken (round : Rounding) (t : DateTime) {token : Token} {pieces : List Piece}
    (h : token.pieces = .ok pieces) :
    (t.renderToken round token).toList = pieces.flatMap t.written := by
  cases token with
  | placeholder p =>
    rw [Token.pieces] at h
    split at h
    · cases h
      rw [renderToken, List.flatMap_singleton]
      exact toList_render round t ‹_›
    · cases h
  | escaped text =>
    cases h
    rw [renderToken, String.toList_ofList, List.flatMap_map]
    exact (List.flatMap_singleton' text).symm
  | literal c =>
    cases h
    rw [renderToken, String.toList_ofList, List.flatMap_singleton]
    rfl

theorem flatMap_renderToken (round : Rounding) (t : DateTime) {tokens : List Token}
    {found : List (List Piece)} (h : tokens.mapM Token.pieces = .ok found) :
    tokens.flatMap (fun token => (t.renderToken round token).toList) =
      found.flatten.flatMap t.written := by
  induction tokens generalizing found with
  | nil =>
    cases h
    rfl
  | cons token tokens ih =>
    obtain ⟨pieces, rest, first, others, rfl⟩ := mapM_cons_eq_ok_iff.mp h
    rw [List.flatMap_cons, List.flatten_cons, List.flatMap_append,
      toList_renderToken round t first, ih others]

theorem exists_tokens_of_pieces {format : String} {layout : List Piece}
    (h : pieces format = .ok layout) :
    ∃ known found, tokens format = .ok known ∧ known.mapM Token.pieces = .ok found ∧
      found.flatten = layout := by
  rw [pieces] at h
  cases lexed : tokens format with
  | error e =>
    rw [lexed] at h
    cases h
  | ok known =>
    cases mapped : known.mapM Token.pieces with
    | error e => simp [lexed, mapped, bind, Except.bind] at h
    | ok found =>
      simp only [lexed, mapped, bind, Except.bind] at h
      split at h
      · cases h
      · exact ⟨known, found, rfl, mapped, Except.ok.inj h⟩

/-- A format for reading writes its pieces one after the other. -/
theorem format_eq_of_pieces (round : Rounding) (t : DateTime) {format : String}
    {layout : List Piece} (h : pieces format = .ok layout) :
    t.format round format = .ok (String.ofList (layout.flatMap t.written)) := by
  obtain ⟨known, found, lexed, mapped, rfl⟩ := exists_tokens_of_pieces h
  rw [DateTime.format, lexed, ← flatMap_renderToken round t mapped, ← List.flatMap_map,
    ← String.toList_join, String.ofList_toList]
  rfl

/-- An offset of whole minutes is written with a sign and a colon. -/
theorem exists_zoneText {offset : Int} (small : offset.natAbs < 86400) (minutes : 60 ∣ offset) :
    ∃ zone : ZoneText, zone.seconds = offset ∧ zone.text = (offsetText ":" offset).toList := by
  have hours : offset.natAbs / 60 / 60 < 10 ^ 2 := by omega
  have inHour : offset.natAbs / 60 % 60 < 10 ^ 2 := by omega
  refine ⟨.shifted (offset < 0) true ⟨_, hours⟩ ⟨_, inHour⟩, ?_, ?_⟩
  · simp only [ZoneText.seconds, ZoneText.shift, decide_eq_true_eq]
    split <;> omega
  · simp only [offsetText, String.toList_append, toList_padded (by decide) hours,
      toList_padded (by decide) inHour, ZoneText.text, ZoneText.shiftText, decide_eq_true_eq]
    split <;> simp

/-- The digits that the ISO formats have for a component. -/
def width : Component → Nat
  | .year => 4
  | .ordinal | .millis => 3
  | .weekday => 1
  | .month | .day | .week | .hour | .minute | .second | .offset => 2

/-- The numbers of a valid date and time fit their digits. -/
theorem exists_part_eq {t : DateTime} (valid : t.isValid = true) {c : Component}
    (noWeek : c ≠ .week) (noOffset : c ≠ .offset) :
    ∃ n : Nat, t.part c = n ∧ n < 10 ^ width c := by
  obtain ⟨date, hour, minute, second, microsecond, -⟩ := (isValid_iff t).mp valid
  obtain ⟨⟨-, year⟩, ⟨-, month⟩, -, day⟩ := (Date.isValid_iff t.date).mp date
  have ordinal := (Date.dayOfYear_mem date).2
  have long := daysInYear_mem t.date.year
  have weekday := (Date.isoWeekday_mem t.date).2
  have monthLong := daysInMonth_le t.date.year t.date.month
  cases c with
  | week => exact absurd rfl noWeek
  | offset => exact absurd rfl noOffset
  | millis => exact ⟨t.millisecond, rfl, by rw [width, millisecond]; omega⟩
  | _ =>
    refine ⟨_, rfl, ?_⟩
    rw [width]
    omega

/-- What a layout without a week writes has this layout. The offset has to be one of whole minutes,
since its seconds are not written. -/
theorem spelled_written {t : DateTime} (valid : t.isValid = true) {layout : List Piece}
    (widths : ∀ c count, .digits c count ∈ layout → count = width c ∧ c ≠ .week ∧ c ≠ .offset)
    (minutes : .offset ∈ layout → 60 ∣ t.offset) :
    Spelled layout (t.parts (layout.filterMap Piece.component?)) (layout.flatMap t.written) := by
  induction layout with
  | nil => exact .nil
  | cons piece layout ih =>
    have ih := ih (fun c count mem => widths c count (List.mem_cons_of_mem _ mem))
      (fun mem => minutes (List.mem_cons_of_mem _ mem))
    cases piece with
    | exactly c => exact .exactly c ih
    | digits component count =>
      obtain ⟨rfl, noWeek, noOffset⟩ := widths component count List.mem_cons_self
      obtain ⟨n, part, fits⟩ := exists_part_eq valid noWeek noOffset
      have pos : 0 < width component := by cases component <;> decide
      have written : t.written (.digits component (width component)) =
          lastDigits (width component) n := by
        rw [DateTime.written, part, Int.toNat_natCast, toList_padded pos fits]
      rw [List.filterMap_cons, Piece.component?, parts, List.map_cons, List.flatMap_cons, part,
        written]
      exact .digits component ⟨n, fits⟩ ih
    | offset =>
      obtain ⟨-, -, -, -, -, small⟩ := (isValid_iff t).mp valid
      obtain ⟨zone, seconds, text⟩ := exists_zoneText small (minutes List.mem_cons_self)
      rw [List.filterMap_cons, Piece.component?, parts, List.map_cons, List.flatMap_cons, part,
        written, ← text, ← seconds]
      exact .offset zone ih

theorem lookup_parts (t : DateTime) (components : List Component) (c : Component) :
    (t.parts components).lookup c = if c ∈ components then some (t.part c) else none := by
  induction components with
  | nil => rfl
  | cons d components ih =>
    rw [parts, List.map_cons, Reading.lookup_cons]
    by_cases same : c = d
    · subst same
      simp
    · rw [if_neg same]
      simp only [List.mem_cons, same, false_or]
      exact ih

/-- A date and time cut down to some of its components. A day of the year stands for the whole
date; a month or a day that is left out is the first one, and what is left out of the time is
zero. -/
def truncatedTo (components : List Component) (t : DateTime) : DateTime where
  date :=
    if .ordinal ∈ components then t.date
    else
      ⟨t.date.year, if .month ∈ components then t.date.month else 1,
        if .day ∈ components then t.date.day else 1⟩
  hour := if .hour ∈ components then t.hour else 0
  minute := if .minute ∈ components then t.minute else 0
  second := if .second ∈ components then t.second else 0
  microsecond := if .millis ∈ components then t.microsecond / 1000 * 1000 else 0
  offset := t.offset

theorem isValid_truncatedTo {t : DateTime} (valid : t.isValid = true)
    (components : List Component) : (t.truncatedTo components).isValid = true := by
  obtain ⟨date, hour, minute, second, microsecond, offset⟩ := (isValid_iff t).mp valid
  rw [isValid_iff]
  refine ⟨?_, ?_, ?_, ?_, ?_, offset⟩
  · rw [truncatedTo]
    split
    · exact date
    · obtain ⟨year, ⟨month1, month12⟩, day1, dayLast⟩ := (Date.isValid_iff t.date).mp date
      have january : daysInMonth t.date.year 1 = 31 := rfl
      have month31 := daysInMonth_le t.date.year t.date.month
      rw [Date.isValid_iff]
      dsimp only
      refine ⟨year, ?_, ?_⟩
      · split <;> omega
      · split <;> split <;> omega
  all_goals
    simp only [truncatedTo]
    split <;> omega

section
variable {t : DateTime} {components : List Component}

theorem get?_parts (c : Component) : (t.parts components).get? c =
    if c ∈ components then some (t.part c).toNat else none := by
  rw [Reading.get?, lookup_parts]
  split <;> rfl

theorem getD_parts {c : Component} {n : Nat} (number : (t.part c).toNat = n) (absent : Nat) :
    ((t.parts components).get? c).getD absent = if c ∈ components then n else absent := by
  rw [get?_parts, number]
  split <;> rfl

theorem date?_parts (valid : t.date.isValid = true) (noWeek : .week ∉ components)
    (validToo : (t.truncatedTo components).date.isValid = true) :
    (t.parts components).date? t.date.year = some (t.truncatedTo components).date := by
  obtain ⟨⟨year1, -⟩, -⟩ := (Date.isValid_iff t.date).mp valid
  rw [truncatedTo] at validToo ⊢
  by_cases ordinal : Component.ordinal ∈ components
  · have inYear := Date.dayOfYear_mem valid
    have place : (t.part .ordinal).toNat = t.date.dayOfYear := rfl
    rw [Reading.date?, get?_parts, if_pos ordinal, place]
    simp only [ordinal, if_true]
    rw [if_pos ⟨year1, inYear⟩, Date.ofDayOfYear_dayOfYear valid]
  · simp only [ordinal, if_false] at validToo ⊢
    have month : (t.part .month).toNat = t.date.month := rfl
    have day : (t.part .day).toNat = t.date.day := rfl
    rw [Reading.date?, get?_parts, get?_parts, if_neg ordinal, if_neg noWeek]
    simp only [getD_parts month, getD_parts day]
    rw [Date.ofParts?, if_pos validToo]

theorem onDate_parts (zone : .offset ∈ components ∨ t.offset = 0) :
    (t.parts components).onDate (t.truncatedTo components).date = t.truncatedTo components := by
  have offset : ((t.parts components).lookup .offset).getD 0 = t.offset := by
    rw [lookup_parts]
    obtain written | universal := zone
    · rw [if_pos written]
      rfl
    · split
      · rfl
      · exact universal.symm
  have hour : (t.part .hour).toNat = t.hour := rfl
  have minute : (t.part .minute).toNat = t.minute := rfl
  have second : (t.part .second).toNat = t.second := rfl
  have millis : (t.part .millis).toNat = t.millisecond := rfl
  rw [Reading.onDate, offset, getD_parts hour, getD_parts minute, getD_parts second,
    getD_parts millis]
  simp only [truncatedTo, millisecond, ite_mul, Nat.zero_mul]

/-- The written numbers are read as the truncated date and time. -/
theorem utc?_parts_eq_some_iff (valid : t.isValid = true) (year : .year ∈ components)
    (noWeek : .week ∉ components) (zone : .offset ∈ components ∨ t.offset = 0) {u : DateTime} :
    (t.parts components).utc? = some u ↔ u.IsUtcOf (t.truncatedTo components) := by
  have truncated := isValid_truncatedTo valid components
  have date := date?_parts ((isValid_iff t).mp valid).1 noWeek ((isValid_iff _).mp truncated).1
  have known : (t.parts components).get? .year = some t.date.year := by
    rw [get?_parts, if_pos year]
    rfl
  rw [Reading.utc?_eq_some_iff]
  constructor
  · rintro ⟨_, _, hasYear, hasDate, -, utc⟩
    rw [known, Option.some.injEq] at hasYear
    rw [← hasYear, date, Option.some.injEq] at hasDate
    rwa [← hasDate, onDate_parts zone] at utc
  · intro utc
    refine ⟨_, _, known, date, ?_⟩
    rw [onDate_parts zone]
    exact ⟨truncated, utc⟩

end
end DateTime

/-- The components that a format for reading has. -/
def componentsOf (format : String) : List Component :=
  match pieces format with
  | .ok layout => layout.filterMap Piece.component?
  | .error _ => []

/-- Every number has the width of its component. -/
def hasWidths (layout : List Piece) : Bool :=
  layout.all fun
    | .digits c count => count == DateTime.width c && c != .offset
    | _ => true

private theorem isoLayouts_written :
    isoLayouts.all (fun layout => layout.contains (.digits .year 4) && hasWidths layout) =
      true := by
  decide +kernel

theorem component_mem_of_mem {layout : List Piece} {piece : Piece} {c : Component}
    (mem : piece ∈ layout) (has : piece.component? = some c) :
    c ∈ layout.filterMap Piece.component? :=
  List.mem_filterMap.mpr ⟨piece, mem, has⟩

theorem width_of_mem {layout : List Piece} (widths : hasWidths layout = true) {c : Component}
    {count : Nat} (mem : .digits c count ∈ layout) : count = DateTime.width c ∧ c ≠ .offset := by
  simpa using List.all_eq_true.mp widths _ mem

/-- What an ISO format without a week writes is read back as the written fields, in universal time
and whenever this is a time of the years 1 to 9999. A universal time comes back as it was
truncated. -/
theorem readStrict_format (round : Rounding) {t : DateTime} (valid : t.isValid = true)
    {format : String} (iso : format ∈ isoFormats) (noWeek : .week ∉ componentsOf format)
    (zone : t.offset = 0 ∨ (.offset ∈ componentsOf format ∧ 60 ∣ t.offset)) :
    ∃ text found, t.format round format = .ok text ∧ readStrict isoFormats text = .ok found ∧
      (∀ u, found = some u ↔ u.IsUtcOf (t.truncatedTo (componentsOf format))) ∧
      (t.offset = 0 → found = some (t.truncatedTo (componentsOf format))) := by
  obtain ⟨layout, known, isLayout⟩ := exists_mem_of_mapM mapM_pieces_isoFormats iso
  have components : componentsOf format = layout.filterMap Piece.component? := by
    rw [componentsOf, isLayout]
  rw [components] at noWeek zone ⊢
  obtain ⟨hasYear, hasWidths⟩ :=
    Bool.and_eq_true_iff.mp (List.all_eq_true.mp isoLayouts_written layout known)
  have year : .year ∈ layout.filterMap Piece.component? :=
    component_mem_of_mem (List.contains_iff_mem.mp hasYear) rfl
  have widths : ∀ c count, .digits c count ∈ layout →
      count = DateTime.width c ∧ c ≠ .week ∧ c ≠ .offset := by
    intro c count mem
    obtain ⟨width, noOffset⟩ := width_of_mem hasWidths mem
    refine ⟨width, ?_, noOffset⟩
    rintro rfl
    exact noWeek (component_mem_of_mem mem rfl)
  have minutes : .offset ∈ layout → 60 ∣ t.offset := by
    intro _
    obtain universal | ⟨-, whole⟩ := zone
    · rw [universal]
      exact Int.dvd_zero 60
    · exact whole
  have zoned : .offset ∈ layout.filterMap Piece.component? ∨ t.offset = 0 :=
    zone.symm.imp And.left id
  have written : t.format round format = .ok (String.ofList (layout.flatMap t.written)) :=
    t.format_eq_of_pieces round isLayout
  have spelled := DateTime.spelled_written valid widths minutes
  have read := fun u => DateTime.utc?_parts_eq_some_iff (u := u) valid year noWeek zoned
  refine ⟨_, _, written, readStrict_of_spelled known ?_, read, fun universal => ?_⟩
  · rw [String.toList_ofList, spelled.map_western (literalsPlain_of_mem known)]
    exact spelled
  · exact (read _).mpr (.self (DateTime.isValid_truncatedTo valid _) universal)

/-- Half past ten, east of the meridian, is five o'clock in universal time; the seconds are lost. -/
theorem readStrict_format_minutes :
    ∃ text,
      DateTime.format .exact ⟨⟨2019, 3, 15⟩, 10, 30, 59, 999000, 19800⟩ "YYYY-MM-DDTHH:mmZ" =
        .ok text ∧
      readStrict isoFormats text = .ok (some ⟨⟨2019, 3, 15⟩, 5, 0, 0, 0, 0⟩) := by
  have components : componentsOf "YYYY-MM-DDTHH:mmZ" =
      [.year, .month, .day, .hour, .minute, .offset] := by cbv
  have iso : "YYYY-MM-DDTHH:mmZ" ∈ isoFormats := by decide
  obtain ⟨text, found, written, read, meaning, -⟩ :=
    readStrict_format .exact (t := ⟨⟨2019, 3, 15⟩, 10, 30, 59, 999000, 19800⟩) (by decide) iso
      (by rw [components]; decide) (.inr ⟨by rw [components]; decide, by decide⟩)
  rw [components] at meaning
  have utc : found = some ⟨⟨2019, 3, 15⟩, 5, 0, 0, 0, 0⟩ :=
    (meaning _).mpr ⟨by decide, rfl, by decide⟩
  rw [utc] at read
  exact ⟨text, written, read⟩

end ContentSchema.Calendar
