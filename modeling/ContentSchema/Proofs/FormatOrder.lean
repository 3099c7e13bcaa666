import ContentSchema.Proofs.IsoLayouts
import ContentSchema.Value.Kind

/-! No text has the shape of two ISO formats, so that neither the order of the formats nor their
repetition matters. -/
namespace ContentSchema.Calendar
open Text

/-- The whole text has the shape that a format asks for, whether or not the date exists. -/
def FormatMatches (format text : String) : Prop :=
  ∃ layout r, pieces format = .ok layout ∧ matchPieces? layout text.toList = some r

/-- Where a scan can stop at one member only, the order of the members and their repetition are of
no account. -/
theorem findSome?_eq_of_mem_iff {α β : Type} {g : α → Option β} {l k : List α}
    (same : ∀ a, a ∈ l ↔ a ∈ k)
    (only : ∀ a ∈ k, ∀ b ∈ k, (g a).isSome = true → (g b).isSome = true → b = a) :
    l.findSome? g = k.findSome? g := by
  cases found : k.findSome? g with
  | none =>
    refine List.findSome?_eq_none_iff.mpr fun a mem => ?_
    exact List.findSome?_eq_none_iff.mp found a ((same a).mp mem)
  | some v =>
    obtain ⟨a, mem, here⟩ := List.exists_of_findSome?_eq_some found
    have stops : (g a).isSome = true := by rw [here, Option.isSome_some]
    rw [findSome?_eq_of_only ((same a).mpr mem) fun b memToo stopsToo =>
      only a mem b ((same b).mp memToo) stops stopsToo, here]

theorem mem_isoLayouts_iff {layout : List Piece} :
    layout ∈ isoLayouts ↔ ∃ format ∈ isoFormats, pieces format = .ok layout :=
  mem_iff_of_mapM mapM_pieces_isoFormats

/-- No text has the shape of two of the formats. -/
theorem isoFormats_pairwise (text : String) :
    isoFormats.Pairwise fun f g => ¬ (FormatMatches f text ∧ FormatMatches g text) := by
  refine (pairwise_of_mapM mapM_pieces_isoFormats outlines_disjoint).imp_of_mem ?_
  rintro f g known knownToo apart ⟨⟨layout, r, read, matched⟩, ⟨other, s, readToo, matchedToo⟩⟩
  have outline {format : String} {pieces' : List Piece} {r : Reading} (known : format ∈ isoFormats)
      (read : pieces format = .ok pieces') (matched : matchPieces? pieces' text.toList = some r) :
      (text.toList.map western).map masked ∈ outlines pieces' := by
    have plain := literalsPlain_of_mem (mem_isoLayouts_iff.mpr ⟨format, known, read⟩)
    exact ((matchPieces?_eq_some_iff plain).mp matched).map_masked_mem plain
  exact apart layout other read readToo _ (outline known read matched)
    (outline knownToo readToo matchedToo)

/-- Two layouts that yield a date from one text are the same. -/
theorem eq_of_readLayout {layout other : List Piece} (known : layout ∈ isoLayouts)
    (knownToo : other ∈ isoLayouts) {text : String}
    (found : (readLayout text layout).isSome = true)
    (foundToo : (readLayout text other).isSome = true) : other = layout := by
  obtain ⟨r, matched, -⟩ := Option.bind_eq_some_iff.mp (Option.eq_some_of_isSome found)
  obtain ⟨s, matchedToo, -⟩ := Option.bind_eq_some_iff.mp (Option.eq_some_of_isSome foundToo)
  exact eq_of_matchPieces? known knownToo matched matchedToo

theorem readStrict_eq_of_mem_iff {formats : List String}
    (same : ∀ format, format ∈ formats ↔ format ∈ isoFormats) (text : String) :
    readStrict formats text = readStrict isoFormats text := by
  obtain ⟨layouts, mapped⟩ := exists_mapM_of_forall (f := pieces) (l := formats) fun format mem => by
    obtain ⟨layout, -, read⟩ := exists_mem_of_mapM mapM_pieces_isoFormats ((same format).mp mem)
    exact ⟨layout, read⟩
  have sameLayouts (layout : List Piece) : layout ∈ layouts ↔ layout ∈ isoLayouts := by
    rw [mem_iff_of_mapM mapped, mem_isoLayouts_iff]
    simp only [same]
  have starts : layouts.all startsWithYear = true :=
    List.all_eq_true.mpr fun layout mem => startsWithYear_of_mem ((sameLayouts layout).mp mem)
  rw [readStrict_eq_findSome? mapped starts, readStrict_isoFormats,
    findSome?_eq_of_mem_iff sameLayouts fun _ known _ knownToo => eq_of_readLayout known knownToo]

/-- At most one ISO format matches a text, before any look at the calendar. What is read from a value
is therefore the same, and never a fault, for every reordering and repetition of the formats. -/
theorem isoFormats_exclusive :
    (∀ text, isoFormats.Pairwise fun f g => ¬ (FormatMatches f text ∧ FormatMatches g text)) ∧
      ∀ v : Value, ∃ found, ∀ formats : List String,
        (∀ format, format ∈ formats ↔ format ∈ isoFormats) → v.readStrict formats = .ok found := by
  refine ⟨isoFormats_pairwise, fun v => ?_⟩
  cases v with
  | text s =>
    refine ⟨isoLayouts.findSome? (readLayout s), fun formats same => ?_⟩
    rw [← readStrict_isoFormats]
    exact readStrict_eq_of_mem_iff same s
  | _ => exact ⟨none, fun _ _ => rfl⟩

/-- The calendar refuses the one format that matches, and none of the others steps in. -/
theorem isoFormats_exclusive_refused :
    (∀ format, format ∈ isoFormats.reverse ++ isoFormats ↔ format ∈ isoFormats) ∧
      (Value.text "20190230").readStrict (isoFormats.reverse ++ isoFormats) = .ok none := by
  have same (format : String) :
      format ∈ isoFormats.reverse ++ isoFormats ↔ format ∈ isoFormats := by
    simp
  have refused : readStrict isoFormats "20190230" = .ok none := by
    rw [readStrict_isoFormats, Except.ok.injEq]
    decide +kernel
  obtain ⟨found, read⟩ := isoFormats_exclusive.2 (.text "20190230")
  refine ⟨same, ?_⟩
  rw [read _ same, ← read isoFormats fun _ => Iff.rfl]
  exact refused

end ContentSchema.Calendar
