import ContentSchema.Proofs.FormatOrder
import ContentSchema.Proofs.WrittenDates

/-! Reading by any formats. It fails in one way only: a format without a year matches the text before
another format has read a date. -/
namespace ContentSchema.Calendar

theorem Reading.get?_eq_none_iff {r : Reading} {c : Component} :
    r.get? c = none ↔ c ∉ r.map Prod.fst := by
  rw [Reading.get?, Option.map_eq_none_iff]
  induction r with
  | nil => simp
  | cons entry r ih =>
    obtain ⟨d, n⟩ := entry
    rw [Reading.lookup_cons, List.map_cons, List.mem_cons, not_or]
    by_cases same : c = d
    · simp [same]
    · simp [same, ih]

/-- A number is read for every component of a layout. -/
theorem map_fst_of_match {layout : List Piece} {cs : List Char} {r : Reading}
    (matched : matchPieces? layout cs = some r) :
    r.map Prod.fst = layout.filterMap Piece.component? := by
  induction layout generalizing cs r with
  | nil =>
    cases cs <;> cases matched
    rfl
  | cons piece layout ih =>
    cases piece with
    | exactly c =>
      cases cs with
      | nil => cases matched
      | cons d cs =>
        rw [matchPieces?, Option.ite_none_right_eq_some] at matched
        exact ih matched.2
    | digits component count =>
      obtain ⟨_, -, matched⟩ := Option.bind_eq_some_iff.mp matched
      obtain ⟨others, rest, matched⟩ := Option.bind_eq_some_iff.mp matched
      cases matched
      rw [List.map_cons, ih rest]
      rfl
    | offset =>
      obtain ⟨_, -, matched⟩ := Option.bind_eq_some_iff.mp matched
      obtain ⟨others, rest, matched⟩ := Option.bind_eq_some_iff.mp matched
      cases matched
      rw [List.map_cons, ih rest]
      rfl

/-- Formats are tried in order, and the first one that reads a date or fails decides. -/
theorem readStrict_append (before after : List String) (text : String) :
    readStrict (before ++ after) text =
      match readStrict before text with
      | .ok none => readStrict after text
      | decided => decided := by
  induction before with
  | nil => rfl
  | cons format before ih =>
    rw [List.cons_append, readStrict, readStrict, ih]
    cases pieces format with
    | error e => rfl
    | ok layout =>
      simp only [bind, Except.bind]
      cases matchPieces? layout text.toList with
      | none => rfl
      | some r =>
        dsimp only
        cases r.get? .year with
        | none => rfl
        | some year =>
          dsimp only
          cases r.dateTime? year <;> rfl

/-- The whole text has the shape of a format that asks for no year. -/
def MatchesYearless (format text : String) : Prop :=
  FormatMatches format text ∧ .year ∉ componentsOf format

theorem componentsOf_eq {format : String} {layout : List Piece} (h : pieces format = .ok layout) :
    componentsOf format = layout.filterMap Piece.component? := by
  rw [componentsOf, h]

theorem readStrict_of_matchesYearless {format text : String} (h : MatchesYearless format text) :
    readStrict [format] text = .error .withoutYear := by
  obtain ⟨⟨layout, r, read, matched⟩, yearless⟩ := h
  have noYear : r.get? .year = none := by
    rw [Reading.get?_eq_none_iff, map_fst_of_match matched, ← componentsOf_eq read]
    exact yearless
  rw [readStrict, read]
  simp only [bind, Except.bind, matched, noYear]
  rfl

theorem readStrict_singleton {format text : String} {layout : List Piece} {r : Reading} {year : Nat}
    (usable : pieces format = .ok layout) (matched : matchPieces? layout text.toList = some r)
    (hasYear : r.get? .year = some year) : readStrict [format] text = .ok (r.dateTime? year) := by
  rw [readStrict, usable]
  simp only [bind, Except.bind, matched, hasYear]
  cases r.dateTime? year <;> rfl

/-- Any other format that can be used for reading answers. -/
theorem exists_readStrict_singleton {format : String} {layout : List Piece}
    (usable : pieces format = .ok layout) {text : String} (h : ¬ MatchesYearless format text) :
    ∃ found, readStrict [format] text = .ok found ∧ ∀ t, found = some t → t.IsUniversal := by
  cases matched : matchPieces? layout text.toList with
  | none =>
    refine ⟨none, ?_, nofun⟩
    rw [readStrict, usable]
    simp only [bind, Except.bind, matched]
    rfl
  | some r =>
    cases hasYear : r.get? .year with
    | none =>
      refine absurd ⟨⟨layout, r, usable, matched⟩, ?_⟩ h
      rw [componentsOf_eq usable, ← map_fst_of_match matched]
      exact Reading.get?_eq_none_iff.mp hasYear
    | some year =>
      refine ⟨_, readStrict_singleton usable matched hasYear, fun t found => ?_⟩
      have utc : r.utc? = some t := by rw [Reading.utc?, hasYear, Option.bind_some, found]
      obtain ⟨_, _, -, -, -, isUtc⟩ := Reading.utc?_eq_some_iff.mp utc
      exact isUtc.isUniversal

/-- A format without a year matches the text, and the formats before it have read no date. -/
def MeetsYearless (formats : List String) (text : String) : Prop :=
  ∃ before format after, formats = before ++ format :: after ∧
    readStrict before text = .ok none ∧ MatchesYearless format text

theorem readStrict_of_meetsYearless {formats : List String} {text : String}
    (h : MeetsYearless formats text) : readStrict formats text = .error .withoutYear := by
  obtain ⟨before, format, after, rfl, nothing, yearless⟩ := h
  rw [readStrict_append, nothing, ← List.singleton_append, readStrict_append,
    readStrict_of_matchesYearless yearless]

/-- Formats that can be used for reading answer, unless the text meets one without a year. -/
theorem exists_readStrict_or_meetsYearless {formats : List String}
    (usable : ∀ format ∈ formats, ∃ layout, pieces format = .ok layout) (text : String) :
    (∃ found, readStrict formats text = .ok found ∧ ∀ t, found = some t → t.IsUniversal) ∨
      MeetsYearless formats text := by
  induction formats with
  | nil => exact .inl ⟨none, rfl, nofun⟩
  | cons format formats ih =>
    by_cases yearless : MatchesYearless format text
    · exact .inr ⟨[], format, formats, rfl, rfl, yearless⟩
    · obtain ⟨layout, read⟩ := usable format List.mem_cons_self
      obtain ⟨first, one, universal⟩ := exists_readStrict_singleton read yearless
      have all := readStrict_append [format] formats text
      rw [one, List.singleton_append] at all
      cases first with
      | some t => exact .inl ⟨some t, all, universal⟩
      | none =>
        refine (ih fun other mem => usable other (List.mem_cons_of_mem _ mem)).imp ?found ?met
        case found =>
          rintro ⟨found, rest, universal⟩
          exact ⟨found, all.trans rest, universal⟩
        case met =>
          rintro ⟨before, other, after, rfl, nothing, met⟩
          refine ⟨format :: before, other, after, rfl, ?_, met⟩
          rw [← List.singleton_append, readStrict_append, one]
          exact nothing

/-- Formats that can be used for reading answer every value with a universal date and time of the
years 1 to 9999 or with none, exactly unless the value is a text that a format without a year matches
before another one has read a date. There the missing year is reported. -/
theorem readStrict_answers_iff {formats : List String}
    (usable : ∀ format ∈ formats, ∃ layout, pieces format = .ok layout) (v : Value) :
    ((∃ found, v.readStrict formats = .ok found ∧ ∀ t, found = some t → t.IsUniversal) ↔
        ∀ text, v = .text text → ¬ MeetsYearless formats text) ∧
      ∀ text, v = .text text → MeetsYearless formats text →
        v.readStrict formats = .error .withoutYear := by
  constructor
  · constructor
    · rintro ⟨found, read, -⟩ text rfl met
      rw [Value.readStrict, readStrict_of_meetsYearless met] at read
      cases read
    · intro unmet
      cases v with
      | text s => exact (exists_readStrict_or_meetsYearless usable s).resolve_right (unmet s rfl)
      | _ => exact ⟨none, rfl, nofun⟩
  · rintro text rfl met
    exact readStrict_of_meetsYearless met

/-- The year 2019 is read by the first format. There is no year 0, and the digits of it are those of an
hour and a minute, which say nothing of a year. -/
theorem readStrict_answers_iff_midnight :
    (∀ format ∈ ["YYYY", "HHmm"], ∃ layout, pieces format = .ok layout) ∧
      (Value.text "2019").readStrict ["YYYY", "HHmm"] =
        .ok (some ⟨⟨2019, 1, 1⟩, 0, 0, 0, 0, 0⟩) ∧
      DateTime.IsUniversal ⟨⟨2019, 1, 1⟩, 0, 0, 0, 0, 0⟩ ∧
      (Value.text "0000").readStrict ["YYYY", "HHmm"] = .error .withoutYear := by
  have year : pieces "YYYY" = .ok [.digits .year 4] := by cbv
  have clock : pieces "HHmm" = .ok [.digits .hour 2, .digits .minute 2] := by cbv
  have usable : ∀ format ∈ ["YYYY", "HHmm"], ∃ layout, pieces format = .ok layout := by
    simp only [List.forall_mem_cons]
    exact ⟨⟨_, year⟩, ⟨_, clock⟩, fun _ none => absurd none List.not_mem_nil⟩
  have met : MeetsYearless ["YYYY", "HHmm"] "0000" := by
    have matched : matchPieces? [.digits .year 4] "0000".toList = some [(.year, 0)] := by decide
    refine ⟨["YYYY"], "HHmm", [], rfl, readStrict_singleton year matched rfl,
      ⟨_, [(.hour, 0), (.minute, 0)], clock, by decide⟩, ?_⟩
    rw [componentsOf_eq clock]
    decide
  have read : (Value.text "2019").readStrict ["YYYY", "HHmm"] =
      .ok (some ⟨⟨2019, 1, 1⟩, 0, 0, 0, 0, 0⟩) := by
    have matched : matchPieces? [.digits .year 4] "2019".toList = some [(.year, 2019)] := by decide
    have date : Reading.dateTime? [(.year, 2019)] 2019 = some ⟨⟨2019, 1, 1⟩, 0, 0, 0, 0, 0⟩ := by
      decide +kernel
    have alone : readStrict ["YYYY"] "2019" = .ok (some ⟨⟨2019, 1, 1⟩, 0, 0, 0, 0, 0⟩) :=
      (readStrict_singleton year matched rfl).trans (congrArg _ date)
    rw [Value.readStrict, ← List.singleton_append, readStrict_append, alone]
  have unmet : ∀ text, Value.text "2019" = .text text → ¬ MeetsYearless ["YYYY", "HHmm"] text := by
    rintro _ ⟨⟩ met
    rw [Value.readStrict, readStrict_of_meetsYearless met] at read
    cases read
  obtain ⟨found, same, universal⟩ := (readStrict_answers_iff usable (.text "2019")).1.mpr unmet
  rw [read, Except.ok.injEq] at same
  exact ⟨usable, read, universal _ same.symm, (readStrict_answers_iff usable _).2 "0000" rfl met⟩

/-- The format for a time of day can be used for reading, and no time of day can be read by it. -/
theorem readStrict_fails_clock :
    (∃ layout, pieces "HH:mm" = .ok layout) ∧
      (Value.text "10:30").readStrict ["HH:mm"] = .error .withoutYear := by
  have clock : pieces "HH:mm" = .ok [.digits .hour 2, .exactly ':', .digits .minute 2] := by cbv
  refine ⟨⟨_, clock⟩, readStrict_of_matchesYearless
    ⟨⟨_, [(.hour, 10), (.minute, 30)], clock, by decide⟩, ?_⟩⟩
  rw [componentsOf_eq clock]
  decide

end ContentSchema.Calendar
