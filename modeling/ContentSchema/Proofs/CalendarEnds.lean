import ContentSchema.Proofs.MonthOrder
import ContentSchema.Proofs.IsoLayouts
import ContentSchema.Resolution

/-! Date arguments at the ends of the calendar. A difference in months, quarters or years looks at a
month beside that of the date, which the first and the last month may not have. -/
namespace ContentSchema
namespace Calendar

/-- Units that are told by moving now by months. -/
def Measure.countsMonths : Measure → Bool
  | year | quarter | month => true
  | week | day | hour | minute | second | millisecond => false

/-- One of the two anchors around a time does not exist: the time lies in January of year 1 before
the day and time of now, or in December of year 9999 and not before them. -/
def DateTime.AnchorMissing (now value : DateTime) : Prop :=
  (value.date.year = 1 ∧ value.date.month = 1 ∧ value.timeInMonth < now.timeInMonth) ∨
    (value.date.year = 9999 ∧ value.date.month = 12 ∧ now.timeInMonth ≤ value.timeInMonth)

/-- A month of 31 days has every day of now. -/
theorem DateTime.timeInMonth_inMonth {t : DateTime} (h : t.IsUniversal) {i : Nat}
    (long : daysInMonth (i / 12) (i % 12 + 1) = 31) :
    (t.inMonth i).timeInMonth = t.timeInMonth := by
  have day : t.date.day ≤ 31 :=
    Nat.le_trans ((Date.isValid_iff t.date).mp h.date).2.2.2 (daysInMonth_le _ _)
  simp only [timeInMonth, inMonth, secondOfDay, long, Nat.min_eq_left day]

section
variable {now value : DateTime} (hn : now.IsUniversal) (hv : value.IsUniversal)
include hn hv

/-- Before its anchor a time looks back to the month before, and else ahead to the month after. -/
theorem anchorMissing_iff : now.AnchorMissing value ↔
    (value.instant < (now.inMonth value.date.monthIndex).instant ∧ value.date.monthIndex = 12) ∨
      (¬ value.instant < (now.inMonth value.date.monthIndex).instant ∧
        value.date.monthIndex = 119999) := by
  obtain ⟨years, months, -⟩ := (Date.isValid_iff value.date).mp hv.date
  obtain ⟨first, last⟩ := Date.monthIndex_mem hv.date
  have january : value.date.monthIndex = 12 ↔ value.date.year = 1 ∧ value.date.month = 1 := by
    rw [Date.monthIndex]
    omega
  have december :
      value.date.monthIndex = 119999 ↔ value.date.year = 9999 ∧ value.date.month = 12 := by
    rw [Date.monthIndex]
    omega
  have anchor := DateTime.instant_lt_iff_of_monthIndex_eq hv (hn.inMonth first last) (by simp)
  rw [DateTime.AnchorMissing, anchor, ← and_assoc, ← and_assoc, ← january, ← december,
    and_comm (b := value.date.monthIndex = 12), and_comm (b := value.date.monthIndex = 119999)]
  refine or_congr (and_congr_right fun here => ?_) (and_congr_right fun here => ?_)
  · rw [here, DateTime.timeInMonth_inMonth hn (by decide)]
  · rw [here, DateTime.timeInMonth_inMonth hn (by decide), Nat.not_lt]

theorem monthsBetween_outcome (round : Rounding) :
    (now.AnchorMissing value ∧ ∃ e, monthsBetween round now value = .error e ∧
      (e.year = 0 ∨ e.year = 10000)) ∨
    (¬ now.AnchorMissing value ∧ ∃ months, monthsBetween round now value = .ok months) := by
  obtain ⟨first, last⟩ := Date.monthIndex_mem hv.date
  have previous : (now.date.monthIndex +
      (value.date.monthIndex - now.date.monthIndex - 1) : Int) = value.date.monthIndex - 1 := by
    omega
  have next : (now.date.monthIndex +
      (value.date.monthIndex - now.date.monthIndex + 1) : Int) = value.date.monthIndex + 1 := by
    omega
  rw [anchorMissing_iff hn hv, monthsBetween_eq round hn hv, DateTime.shiftMonths_eq,
    DateTime.shiftMonths_eq, previous, next]
  by_cases before : value.instant < (now.inMonth value.date.monthIndex).instant
  · rw [if_pos before]
    by_cases here : value.date.monthIndex = 12
    · refine .inl ⟨.inl ⟨before, here⟩, ⟨0⟩, ?_, .inl rfl⟩
      rw [here, if_neg (by decide)]
      rfl
    · refine .inr ⟨by tauto, ?_⟩
      rw [if_pos (by omega)]
      exact ⟨_, rfl⟩
  · rw [if_neg before]
    by_cases here : value.date.monthIndex = 119999
    · refine .inl ⟨.inr ⟨before, here⟩, ⟨10000⟩, ?_, .inr rfl⟩
      rw [here, if_neg (by decide)]
      rfl
    · refine .inr ⟨by tauto, ?_⟩
      rw [if_pos (by omega)]
      exact ⟨_, rfl⟩

/-- A difference fails exactly in those units, between those times. -/
theorem elapsed_outcome (round : Rounding) (unit : Measure) :
    ((unit.countsMonths = true ∧ now.AnchorMissing value) ∧
      ∃ e, elapsed round now value unit = .error e ∧ (e.year = 0 ∨ e.year = 10000)) ∨
    (¬ (unit.countsMonths = true ∧ now.AnchorMissing value) ∧
      ∃ n, elapsed round now value unit = .ok n) := by
  have outcome := monthsBetween_outcome hn hv round
  have ofMonths (f : Rat → Int)
      (counts : elapsed round now value unit = (monthsBetween round now value).map f) :
      (now.AnchorMissing value ∧
        ∃ e, elapsed round now value unit = .error e ∧ (e.year = 0 ∨ e.year = 10000)) ∨
      (¬ now.AnchorMissing value ∧ ∃ n, elapsed round now value unit = .ok n) := by
    rw [counts]
    obtain ⟨missing, e, failed, years⟩ | ⟨present, months, found⟩ := outcome
    · exact .inl ⟨missing, e, by rw [failed, Except.map], years⟩
    · exact .inr ⟨present, f months, by rw [found, Except.map]⟩
  cases unit with
  | year => simpa [Measure.countsMonths] using ofMonths _ rfl
  | quarter => simpa [Measure.countsMonths] using ofMonths _ rfl
  | month => simpa [Measure.countsMonths] using ofMonths _ rfl
  | _ => exact .inr ⟨by simp [Measure.countsMonths], _, rfl⟩

end

theorem isoDate?_eq_some_iff {s : String} {t : DateTime} :
    isoDate? s = some t ↔ readStrict isoFormats s = .ok (some t) := by
  rw [isoDate?]
  cases readStrict isoFormats s <;> simp

theorem isUniversal_of_isoDate? {s : String} {t : DateTime} (h : isoDate? s = some t) :
    t.IsUniversal := by
  obtain ⟨_, -, r, -, utc⟩ := exists_spelled_of_readStrict (isoDate?_eq_some_iff.mp h)
  obtain ⟨_, _, -, -, -, found⟩ := Reading.utc?_eq_some_iff.mp utc
  exact found.isUniversal

end Calendar

namespace DateArguments
open Calendar

/-- The unit of a difference argument as a value; there may be none. -/
def unitValue (word : Option String) : Value := word.elim .null .text

/-- What a stored date answers when no format is asked for. -/
def answer (now t : DateTime) (raw : Value) (fromNow : Bool) (word : Option String) :
    Except ResolveError Value :=
  if fromNow then .ok (.text (seenFrom .binary64 t now))
  else match word with
    | none => .ok raw
    | some s =>
      if s.isEmpty then .ok raw
      else match elapsed .binary64 now t (.ofSpelling s) with
        | .ok n => .ok (.int n)
        | .error e => .error (.year e)

section
variable {query : Query} {source args : Record} {fieldName s : String} {t : DateTime}
  {word : Option String}

theorem run_resolve_date (d : Dependencies) (stored : Record.get source fieldName = .text s)
    (detected : isoDate? s = some t) (plain : (Record.get args "formatString").isTruthy = false)
    (asked : Record.get args "difference" = unitValue word) :
    ((query.resolve source (.mapping args) (.date fieldName)).run d : _ × Dependencies) =
      (answer query.now t (.text s) (Record.get args "fromNow").isTruthy word, d) := by
  have applied : query.resolve source (.mapping args) (.date fieldName) =
      apply query.now (.text s) args := by
    rw [← stored]
    rfl
  rw [applied, apply, plain, asked]
  cases (Record.get args "fromNow").isTruthy with
  | true =>
    simp only [detected, answer]
    rfl
  | false =>
    cases word with
    | none => rfl
    | some u =>
      have read : unit (.text u) = pure (Measure.ofSpelling u) := rfl
      simp only [unitValue, Option.elim, answer, Value.isTruthy, detected, read, pure_bind]
      cases u.isEmpty with
      | true => rfl
      | false => cases elapsed .binary64 query.now t (.ofSpelling u) <;> rfl

/-- The arguments ask for a difference that looks past an end of the calendar. -/
def PastEnd (now t : DateTime) (fromNow : Bool) (word : Option String) : Prop :=
  fromNow = false ∧ (∃ u, word = some u ∧ (Measure.ofSpelling u).countsMonths = true) ∧
    now.AnchorMissing t

/-- An empty unit is milliseconds. -/
theorem isEmpty_of_countsMonths {u : String} (h : (Measure.ofSpelling u).countsMonths = true) :
    u.isEmpty = false := by
  cases empty : u.isEmpty with
  | false => rfl
  | true =>
    rw [String.isEmpty_iff.mp empty] at h
    exact absurd h (by decide)

theorem answer_outcome (clock : query.now.IsUniversal) (date : t.IsUniversal) (raw : Value)
    (fromNow : Bool) (word : Option String) :
    (PastEnd query.now t fromNow word ∧ ∃ e, answer query.now t raw fromNow word =
      .error (.year e) ∧ (e.year = 0 ∨ e.year = 10000)) ∨
    (¬ PastEnd query.now t fromNow word ∧
      ∃ v, answer query.now t raw fromNow word = .ok v) := by
  cases fromNow with
  | true => exact .inr ⟨by simp [PastEnd], _, rfl⟩
  | false =>
    cases word with
    | none => exact .inr ⟨by simp [PastEnd], _, rfl⟩
    | some u =>
      obtain ⟨⟨months, missing⟩, e, failed, years⟩ | ⟨reached, n, found⟩ :=
        elapsed_outcome clock date .binary64 (.ofSpelling u)
      · refine .inl ⟨⟨rfl, ⟨u, rfl, months⟩, missing⟩, e, ?_, years⟩
        simp [answer, isEmpty_of_countsMonths months, failed]
      · refine .inr ⟨?_, ?_⟩
        · rintro ⟨-, ⟨_, ⟨⟩, months⟩, missing⟩
          exact reached ⟨months, missing⟩
        · simp only [answer, found]
          cases u.isEmpty <;> exact ⟨_, rfl⟩

end

/-- A detected date answers arguments without a format, and a difference is found, exactly when the
unit does not count months or both anchors around the date exist. Otherwise the year 0 or 10000 is
out of range. The answer records nothing. -/
theorem dateArguments_answer_iff {query : Query} (clock : query.now.IsUniversal) :
    (∀ {value : DateTime}, value.IsUniversal → ∀ unit : String,
      (∃ n, elapsed .binary64 query.now value (.ofSpelling unit) = .ok n) ↔
        ¬ ((Measure.ofSpelling unit).countsMonths = true ∧ query.now.AnchorMissing value)) ∧
    ∀ {source args : Record} {fieldName s : String} {t : DateTime} {word : Option String}
      (d : Dependencies), Record.get source fieldName = .text s → isoDate? s = some t →
      (Record.get args "formatString").isTruthy = false →
      Record.get args "difference" = unitValue word →
      ∃ outcome, ((query.resolve source (.mapping args) (.date fieldName)).run d :
          _ × Dependencies) = (outcome, d) ∧
        ((∃ v, outcome = .ok v) ↔
          ¬ PastEnd query.now t (Record.get args "fromNow").isTruthy word) ∧
        ((∃ e, outcome = .error (.year e) ∧ (e.year = 0 ∨ e.year = 10000)) ↔
          PastEnd query.now t (Record.get args "fromNow").isTruthy word) := by
  refine ⟨fun date unit => ?_, fun {_ args _ s t word} d stored detected plain asked =>
    ⟨_, run_resolve_date d stored detected plain asked, ?_⟩⟩
  · obtain ⟨missing, e, failed, -⟩ | ⟨reached, found⟩ :=
      elapsed_outcome clock date .binary64 (.ofSpelling unit)
    · simp [failed, missing]
    · simp only [found, reached, not_false_eq_true]
  · obtain ⟨past, e, failed, years⟩ | ⟨reached, v, found⟩ :=
      answer_outcome clock (isUniversal_of_isoDate? detected) (.text s)
        (Record.get args "fromNow").isTruthy word
    · simp [failed, past, years]
    · simp [found, reached]

private def contract (ends : String) : Record := [("id", .text "c"), ("ends", .text ends)]

private def inMonths : Record := [("difference", .text "months")]

/-- On the last day of the calendar, a day later than the stored date. -/
theorem dateArguments_answer_lastMonth :
    let query : Query := ⟨.empty, ⟨⟨9999, 12, 31⟩, 0, 0, 0, 0, 0⟩, none⟩
    query.now.IsUniversal ∧
      isoDate? "9999-12-30" = some ⟨⟨9999, 12, 30⟩, 0, 0, 0, 0, 0⟩ ∧
      (∃ n, elapsed .binary64 query.now ⟨⟨9999, 12, 30⟩, 0, 0, 0, 0, 0⟩ (.ofSpelling "months") =
        .ok n) ∧
      ∃ v, ((query.resolve (contract "9999-12-30") (.mapping inMonths) (.date "ends")).run [] :
        _ × Dependencies) = (.ok v, []) := by
  intro query
  have clock : query.now.IsUniversal := ⟨by decide, by decide⟩
  have detected : isoDate? "9999-12-30" = some ⟨⟨9999, 12, 30⟩, 0, 0, 0, 0, 0⟩ := by
    rw [isoDate?_eq_some_iff, readStrict_isoFormats, Except.ok.injEq]
    decide +kernel
  have stored : Record.get (contract "9999-12-30") "ends" = .text "9999-12-30" := rfl
  have plain : (Record.get inMonths "formatString").isTruthy = false := rfl
  have asked : Record.get inMonths "difference" = unitValue (some "months") := rfl
  obtain ⟨outcome, run, answered, -⟩ :=
    (dateArguments_answer_iff clock).2 [] stored detected plain asked
  have reached : ¬ query.now.AnchorMissing ⟨⟨9999, 12, 30⟩, 0, 0, 0, 0, 0⟩ := by
    rintro (⟨year, -⟩ | ⟨-, -, later⟩)
    · exact absurd year (by decide)
    · exact absurd later (by decide)
  have found := ((dateArguments_answer_iff clock).1 (isUniversal_of_isoDate? detected) "months").mpr
    fun past => reached past.2
  obtain ⟨v, rfl⟩ := answered.mpr fun past => reached past.2.2
  exact ⟨clock, detected, found, v, run⟩

/-- The months to the last day of the calendar cannot be told on the 10th of January 2020. -/
theorem dateArguments_fail_lastDay :
    let query : Query := ⟨.empty, ⟨⟨2020, 1, 10⟩, 0, 0, 0, 0, 0⟩, none⟩
    query.now.IsUniversal ∧
      isoDate? "9999-12-31" = some ⟨⟨9999, 12, 31⟩, 0, 0, 0, 0, 0⟩ ∧
      ((query.resolve (contract "9999-12-31") (.mapping inMonths) (.date "ends")).run [] :
        _ × Dependencies) = (.error (.year ⟨10000⟩), []) := by
  intro query
  have detected : isoDate? "9999-12-31" = some ⟨⟨9999, 12, 31⟩, 0, 0, 0, 0, 0⟩ := by
    rw [isoDate?_eq_some_iff, readStrict_isoFormats, Except.ok.injEq]
    decide +kernel
  have clock : query.now.IsUniversal := ⟨by decide, by decide⟩
  have asked : Record.get inMonths "difference" = unitValue (some "months") := rfl
  have months : Measure.ofSpelling "months" = .month := by decide
  have late : monthsBetween .binary64 query.now ⟨⟨9999, 12, 31⟩, 0, 0, 0, 0, 0⟩ =
      .error ⟨10000⟩ := by
    rw [monthsBetween_eq .binary64 clock (isUniversal_of_isoDate? detected), if_neg (by decide),
      DateTime.shiftMonths_eq, if_neg (by decide), Except.map, Except.error.injEq,
      YearOutOfRange.mk.injEq]
    decide
  refine ⟨clock, detected, ?_⟩
  rw [run_resolve_date [] rfl detected rfl asked, answer, months, elapsed, late]
  rfl

end DateArguments
end ContentSchema
