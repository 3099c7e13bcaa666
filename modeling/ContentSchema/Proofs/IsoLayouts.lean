import ContentSchema.Proofs.MappedLists
import ContentSchema.Proofs.StrictMatching
import ContentSchema.Proofs.UniversalTime

/-! The layouts of the ISO formats. No text has two of them, so that the order in which the formats
are tried does not matter. -/
namespace ContentSchema.Calendar
open Text

namespace Reading

/-- The universal date and time of a reading that has a year. -/
def utc? (r : Reading) : Option DateTime := (r.get? .year).bind r.dateTime?

/-- The time of day and the offset of a reading; what is not read is zero. -/
def onDate (r : Reading) (date : Date) : DateTime where
  date := date
  hour := (r.get? .hour).getD 0
  minute := (r.get? .minute).getD 0
  second := (r.get? .second).getD 0
  microsecond := (r.get? .millis).getD 0 * 1000
  offset := (r.lookup .offset).getD 0

theorem lookup_cons (c d : Component) (n : Int) (r : Reading) :
    List.lookup c ((d, n) :: r) = if c = d then some n else r.lookup c := by
  rw [List.lookup_cons]
  by_cases same : c = d
  · rw [if_pos same, beq_iff_eq.mpr same]
  · rw [if_neg same, beq_eq_false_iff_ne.mpr same]

theorem utc?_eq_some_iff {r : Reading} {t : DateTime} :
    r.utc? = some t ↔ ∃ year date, r.get? .year = some year ∧ r.date? year = some date ∧
      (r.onDate date).isValid = true ∧ t.IsUtcOf (r.onDate date) := by
  have guarded (date : Date) :
      (do guard (r.onDate date).isValid; (r.onDate date).toUtc?) = some t ↔
        (r.onDate date).isValid = true ∧ t.IsUtcOf (r.onDate date) := by
    rw [← DateTime.toUtc?_eq_some_iff]
    cases (r.onDate date).isValid <;> simp [guard]
  simp only [utc?, Option.bind_eq_some_iff]
  constructor
  · rintro ⟨year, known, found⟩
    obtain ⟨date, exact, found⟩ := Option.bind_eq_some_iff.mp found
    exact ⟨year, date, known, exact, (guarded date).mp found⟩
  · rintro ⟨year, date, known, exact, found⟩
    exact ⟨year, known, Option.bind_eq_some_iff.mpr ⟨date, exact, (guarded date).mpr found⟩⟩

end Reading

/-- What a layout that starts with the year reads off a text. -/
def readLayout (text : String) (pieces : List Piece) : Option DateTime :=
  (matchPieces? pieces text.toList).bind Reading.utc?

/-- The layout starts with a number that is the year. -/
def startsWithYear : List Piece → Bool
  | .digits .year _ :: _ => true
  | _ => false

theorem exists_year_of_match {pieces : List Piece} (starts : startsWithYear pieces = true)
    {cs : List Char} {r : Reading} (h : matchPieces? pieces cs = some r) :
    ∃ year, r.get? .year = some year := by
  unfold startsWithYear at starts
  split at starts
  · obtain ⟨⟨n, rest⟩, -, h⟩ := Option.bind_eq_some_iff.mp h
    obtain ⟨others, -, h⟩ := Option.bind_eq_some_iff.mp h
    cases h
    exact ⟨n, rfl⟩
  · cases starts

/-- Formats whose layouts are known are read by the first layout that yields a date. -/
theorem readStrict_eq_findSome? {formats : List String} {layouts : List (List Piece)}
    (known : formats.mapM pieces = .ok layouts) (starts : layouts.all startsWithYear = true)
    (text : String) : readStrict formats text = .ok (layouts.findSome? (readLayout text)) := by
  induction formats generalizing layouts with
  | nil =>
    cases known
    rfl
  | cons format formats ih =>
    obtain ⟨layout, layouts, first, others, rfl⟩ := mapM_cons_eq_ok_iff.mp known
    obtain ⟨starts, startsToo⟩ := Bool.and_eq_true_iff.mp starts
    rw [readStrict, first, List.findSome?_cons, readLayout]
    simp only [bind, Except.bind, ih others startsToo]
    cases matched : matchPieces? layout text.toList with
    | none => rfl
    | some r =>
      obtain ⟨year, hasYear⟩ := exists_year_of_match starts matched
      simp only [Option.bind_some, Reading.utc?, hasYear]
      cases r.dateTime? year <;> rfl

theorem findSome?_eq_of_only {α β : Type} {f : α → Option β} {l : List α} {a : α} (mem : a ∈ l)
    (only : ∀ b ∈ l, (f b).isSome = true → b = a) : l.findSome? f = f a := by
  cases found : l.findSome? f with
  | none => exact (List.findSome?_eq_none_iff.mp found a mem).symm
  | some v =>
    obtain ⟨b, memToo, same⟩ := List.exists_of_findSome?_eq_some found
    rw [← only b memToo (by rw [same, Option.isSome_some]), same]

/-- The layouts of a time of day. -/
def clockLayouts : List (List Piece) :=
  [[.digits .hour 2],
   [.digits .hour 2, .exactly ':', .digits .minute 2],
   [.digits .hour 2, .digits .minute 2],
   [.digits .hour 2, .exactly ':', .digits .minute 2, .exactly ':', .digits .second 2],
   [.digits .hour 2, .digits .minute 2, .digits .second 2],
   [.digits .hour 2, .exactly ':', .digits .minute 2, .exactly ':', .digits .second 2,
    .exactly '.', .digits .millis 3],
   [.digits .hour 2, .digits .minute 2, .digits .second 2, .exactly '.', .digits .millis 3]]

/-- A date with dashes, a time of day and an offset. -/
def momentLayout (clock : List Piece) : List Piece :=
  .digits .year 4 :: .exactly '-' :: .digits .month 2 :: .exactly '-' :: .digits .day 2 ::
    .exactly 'T' :: (clock ++ [.offset])

/-- The layouts of the ISO formats. -/
def isoLayouts : List (List Piece) :=
  [.digits .year 4] ::
  [.digits .year 4, .exactly '-', .digits .month 2] ::
  [.digits .year 4, .exactly '-', .digits .month 2, .exactly '-', .digits .day 2] ::
  [.digits .year 4, .digits .month 2, .digits .day 2] ::
  (clockLayouts.map momentLayout ++
    [[.digits .year 4, .exactly '-', .exactly 'W', .digits .week 2],
     [.digits .year 4, .exactly 'W', .digits .week 2],
     [.digits .year 4, .exactly '-', .exactly 'W', .digits .week 2, .exactly '-',
      .digits .weekday 1],
     [.digits .year 4, .exactly 'W', .digits .week 2, .digits .weekday 1],
     [.digits .year 4, .exactly '-', .digits .ordinal 3],
     [.digits .year 4, .digits .ordinal 3]])

theorem mapM_pieces_isoFormats : isoFormats.mapM pieces = .ok isoLayouts := by cbv

/-- A character with every digit replaced by a zero. -/
def masked (c : Char) : Char := if (digitValue? c).isSome then '0' else c

/-- The ways to write an offset, with zeros for all digits. -/
def zoneOutlines : List (List Char) :=
  ["Z".toList, "z".toList, "+0000".toList, "-0000".toList, "+00:00".toList, "-00:00".toList]

/-- The texts that have a layout, with zeros for all digits. -/
def outlines : List Piece → List (List Char)
  | [] => [[]]
  | .exactly c :: rest => (outlines rest).map (c :: ·)
  | .digits _ count :: rest => (outlines rest).map (List.replicate count '0' ++ ·)
  | .offset :: rest => zoneOutlines.flatMap fun zone => (outlines rest).map (zone ++ ·)

theorem map_masked_lastDigits (width n : Nat) :
    (lastDigits width n).map masked = List.replicate width '0' := by
  induction width generalizing n with
  | zero => rfl
  | succ width ih =>
    have digit := digitValue?_digitChar (n % 10) (Nat.mod_lt n (by decide))
    rw [lastDigits, List.map_append, ih, List.map_singleton, masked, digit, List.replicate_succ']
    rfl

theorem map_masked_text (zone : ZoneText) : zone.text.map masked ∈ zoneOutlines := by
  cases zone with
  | universal capital => cases capital <;> decide
  | shifted west separated hours minutes =>
    rw [ZoneText.text, ZoneText.shiftText, List.map_cons, List.map_append, List.map_append,
      map_masked_lastDigits, map_masked_lastDigits]
    cases west <;> cases separated <;> decide

theorem Spelled.map_masked_mem {pieces : List Piece} {r : Reading} {cs : List Char}
    (spelled : Spelled pieces r cs) (plain : literalsPlain pieces = true) :
    cs.map masked ∈ outlines pieces := by
  induction spelled with
  | nil => exact List.mem_singleton_self _
  | exactly c _ ih =>
    obtain ⟨noDigit, plain⟩ := literalsPlain_exactly.mp plain
    rw [List.map_cons, masked, noDigit]
    exact List.mem_map_of_mem (ih plain)
  | digits component n _ ih =>
    rw [List.map_append, map_masked_lastDigits]
    exact List.mem_map_of_mem (ih plain)
  | offset zone _ ih =>
    rw [List.map_append]
    exact List.mem_flatMap.mpr ⟨_, map_masked_text zone, List.mem_map_of_mem (ih plain)⟩

/-- The layouts have no outline in common. -/
theorem outlines_disjoint :
    isoLayouts.Pairwise fun l k => ∀ o ∈ outlines l, o ∉ outlines k := by
  decide +kernel

private theorem isoLayouts_sound :
    isoLayouts.all (fun l => literalsPlain l && startsWithYear l) = true := by
  decide +kernel

theorem literalsPlain_of_mem {layout : List Piece} (known : layout ∈ isoLayouts) :
    literalsPlain layout = true :=
  (Bool.and_eq_true_iff.mp (List.all_eq_true.mp isoLayouts_sound layout known)).1

theorem startsWithYear_of_mem {layout : List Piece} (known : layout ∈ isoLayouts) :
    startsWithYear layout = true :=
  (Bool.and_eq_true_iff.mp (List.all_eq_true.mp isoLayouts_sound layout known)).2

theorem eq_of_spelled {layout other : List Piece} (known : layout ∈ isoLayouts)
    (knownToo : other ∈ isoLayouts) {r s : Reading} {cs : List Char}
    (spelled : Spelled layout r cs) (spelledToo : Spelled other s cs) : other = layout := by
  have outline := spelled.map_masked_mem (literalsPlain_of_mem known)
  have outlineToo := spelledToo.map_masked_mem (literalsPlain_of_mem knownToo)
  by_contra different
  have symm : Std.Symm fun l k : List Piece => ∀ o ∈ outlines l, o ∉ outlines k :=
    ⟨fun _ _ apart o mem memToo => apart o memToo mem⟩
  exact outlines_disjoint.forall known knownToo (Ne.symm different) _ outline outlineToo

/-- No text has two of the layouts. -/
theorem eq_of_matchPieces? {layout other : List Piece} (known : layout ∈ isoLayouts)
    (knownToo : other ∈ isoLayouts) {r s : Reading} {cs : List Char}
    (matched : matchPieces? layout cs = some r) (matchedToo : matchPieces? other cs = some s) :
    other = layout :=
  eq_of_spelled known knownToo ((matchPieces?_eq_some_iff (literalsPlain_of_mem known)).mp matched)
    ((matchPieces?_eq_some_iff (literalsPlain_of_mem knownToo)).mp matchedToo)

theorem readStrict_isoFormats (text : String) :
    readStrict isoFormats text = .ok (isoLayouts.findSome? (readLayout text)) :=
  readStrict_eq_findSome? mapM_pieces_isoFormats
    (List.all_eq_true.mpr fun _ known => startsWithYear_of_mem known) text

/-- A text that has one of the layouts is read by this layout. -/
theorem readStrict_of_spelled {layout : List Piece} (known : layout ∈ isoLayouts) {r : Reading}
    {text : String} (spelled : Spelled layout r (text.toList.map western)) :
    readStrict isoFormats text = .ok r.utc? := by
  have matched := (matchPieces?_eq_some_iff (literalsPlain_of_mem known)).mpr spelled
  have here : readLayout text layout = r.utc? := by rw [readLayout, matched, Option.bind_some]
  rw [readStrict_isoFormats, ← here]
  congr 1
  refine findSome?_eq_of_only known fun other knownToo found => ?_
  obtain ⟨s, matchedToo, -⟩ := Option.bind_eq_some_iff.mp (Option.eq_some_of_isSome found)
  exact eq_of_matchPieces? known knownToo matched matchedToo

/-- Whatever is read has one of the layouts. -/
theorem exists_spelled_of_readStrict {text : String} {t : DateTime}
    (read : readStrict isoFormats text = .ok (some t)) :
    ∃ layout ∈ isoLayouts, ∃ r, Spelled layout r (text.toList.map western) ∧ r.utc? = some t := by
  rw [readStrict_isoFormats] at read
  obtain ⟨layout, known, found⟩ := List.exists_of_findSome?_eq_some (Except.ok.inj read)
  obtain ⟨r, matched, date⟩ := Option.bind_eq_some_iff.mp found
  exact ⟨layout, known, r, (matchPieces?_eq_some_iff (literalsPlain_of_mem known)).mp matched, date⟩

end ContentSchema.Calendar
