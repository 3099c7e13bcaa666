import ContentSchema.Proofs.FileLinks

/-! Null values in links. A scan for null meets the records that are null in the field compared, and
when identifiers are compared also those that have none. The index has nothing under null. -/
namespace ContentSchema

theorem Query.targets_of_items {v : Value} {items : List Value} (sequence : v.items? = some items) :
    targets true v = items := by
  cases v with
  | list members =>
    cases sequence
    cases items <;> rfl
  | tuple members =>
    cases sequence
    cases items <;> rfl
  | _ => cases sequence

private theorem filterMap_skip_iff {α β : Type} (f : α → Option β) (before after : List α) (a : α) :
    (before ++ a :: after).filterMap f = (before ++ after).filterMap f ↔ f a = none := by
  rw [List.filterMap_append, List.filterMap_append, List.append_cancel_left_eq]
  cases found : f a with
  | none => simp [List.filterMap_cons_none found]
  | some b =>
    rw [List.filterMap_cons_some found]
    refine iff_of_false (fun same => ?_) nofun
    have longer := congrArg List.length same
    rw [List.length_cons] at longer
    omega

namespace Store
variable {s : Store}

/-- Objects without a parent share the first file without an identifier, if there is one. From its
directory no path leads to a file. -/
def NothingForOrphans (s : Store) : Prop :=
  ∀ parent, s.typed? fileType .null = some parent → (Record.get parent "dir").isTruthy = true →
    ∃ directory, Record.get parent "dir" = .text directory ∧
      ∀ relative, relative ≠ "" → s.fileWith? (Path.resolve directory relative) = none

theorem typed?_null_eq_none_iff (type : String) : s.typed? type .null = none ↔
    ∀ r ∈ s.records, isOfType type r = true → (Record.id r).isNull = false := by
  rw [typed?, List.find?_eq_none]
  refine forall₂_congr fun r _ => ?_
  rw [Value.same_null, Bool.and_eq_true, not_and, Bool.not_eq_true]

/-- Nothing is stored under null, and without a field a record is not looked at. -/
theorem Consistent.pointed?_null_eq_none_iff (h : s.Consistent) (linkedField : Option String) :
    s.pointed? linkedField .null = none ↔
      ∀ field, linkedField = some field → field ≠ "" →
        ∀ r ∈ s.records, Dictionary.get? r field ≠ some .null := by
  have unkeyed : indexed? s.index .null = none := by
    cases found : indexed? s.index .null with
    | none => rfl
    | some e =>
      obtain ⟨_, present, alike⟩ := h.listed _ e found
      rw [Value.isNull_eq_of_alike alike] at present
      cases present
  have byId : s.pointed? none .null = none := by
    rw [pointed?, linked?, Option.filter_none, node?, h.working]
    simp [unkeyed]
  rcases linkedField with _ | field
  · exact iff_of_true byId fun _ heq => absurd heq.symm (Option.some_ne_none _)
  · by_cases empty : field = ""
    · subst empty
      exact iff_of_true byId fun _ heq some => absurd (Option.some.inj heq).symm some
    · simp only [Option.some.injEq, forall_eq', ne_eq, empty, not_false_eq_true, forall_const]
      have kept : (some field).filter (fun field => !field.isEmpty) = some field := by
        simp [empty]
      rw [pointed?, linked?, kept, nodes, h.working]
      change s.records.find? _ = none ↔ _
      rw [List.find?_eq_none]
      refine forall₂_congr fun r _ => ?_
      cases Dictionary.get? r field with
      | none => simp
      | some v => cases v <;> simp [Value.same_null, Value.isNull]

end Store

namespace Build

/-- A null among the values that a list link goes through adds no record to what it gives. -/
def SkipsNull (b : Build) (resolver : Resolver) : Prop :=
  ∀ source before after args query,
    (Record.get source resolver.key).items? = some (before ++ .null :: after) →
    Query.returned (b.resolve resolver source args query).1 =
      Query.returned (b.resolve resolver
        (Dictionary.put source resolver.key (.list (before ++ after))) args query).1

private theorem skipsNull_iff (b : Build) (stored : List Record) {resolver : Resolver}
    (link : resolver.isLink = true) {look : Value → Option Record}
    (reads : ∀ source, (Store.afterAdding stored).read source resolver =
      Query.followed look true (Record.get source resolver.key)) :
    (b.holding stored).SkipsNull resolver ↔ look .null = none := by
  have given (source : Record) (items : List Value) (args : Value) (query : Option String)
      (shown : (Record.get source resolver.key).items? = some items) :
      Query.returned ((b.holding stored).resolve resolver source args query).1 =
        items.filterMap look := by
    rw [resolve_of_filled stored rfl link, reads, Query.returned_followed,
      Query.targets_of_items shown]
  have put (source : Record) (items : List Value) :
      (Record.get (Dictionary.put source resolver.key (.list items)) resolver.key).items? =
        some items := by
    rw [Record.get, Dictionary.get?_put, if_pos rfl]
    rfl
  constructor
  · intro skips
    have same := skips (Dictionary.put [] resolver.key (.list [.null])) [] [] .null none (put _ _)
    rw [given _ _ _ _ (put _ _), given _ _ _ _ (put _ _)] at same
    exact (filterMap_skip_iff look [] [] .null).mp same
  · intro nowhere source before after args query shown
    rw [given _ _ _ _ shown, given _ _ _ _ (put _ _)]
    exact (filterMap_skip_iff look before after .null).mpr nowhere

private theorem resolve_file_eq_null_iff (b : Build) (stored : List Record) {source : Record}
    {key relative : String} (shown : Record.get source key = .text relative) (some : relative ≠ "")
    (args : Value) (query : Option String) :
    ((b.holding stored).resolve (.file key) source args query).1 = .ok .null ↔
      (Store.afterAdding stored).fileAt? source relative = .ok none := by
  rw [resolve_of_filled stored rfl rfl, Store.read_file_of_text shown some]
  cases (Store.afterAdding stored).fileAt? source relative with
  | error e => simp [Except.map]
  | ok r => cases r <;> simp [Except.map, Value.ofRecord?]

private theorem orphans_find_nothing_iff (b : Build) (stored : List Record) :
    (∀ key source args query, (Record.get source "parent").isNull = true →
      ((b.holding stored).resolve (.file key) source args query).1 = .ok .null) ↔
      (Store.afterAdding stored).NothingForOrphans := by
  constructor
  case mp =>
    intro gives parent found truthy
    -- An object that has nothing but a path.
    have from_ (relative : String) (some : relative ≠ "") :=
      Store.fileAt?_eq_none_iff.mp ((b.resolve_file_eq_null_iff stored (by rfl) some .null none).mp
        (gives "cover" [("cover", .text relative)] .null none (by rfl))) parent found truthy
    obtain ⟨directory, dir, _⟩ := from_ "x" (by decide)
    refine ⟨directory, dir, fun relative some => ?_⟩
    obtain ⟨other, same, missing⟩ := from_ relative some
    rw [dir] at same
    cases same
    exact missing
  case mpr =>
    intro nothing key source args query null
    have absent : Record.get source "parent" = .null := by
      cases h : Record.get source "parent" <;> simp_all [Value.isNull]
    by_cases path : ∃ relative, Record.get source key = .text relative ∧ relative ≠ ""
    · obtain ⟨relative, shown, some⟩ := path
      rw [b.resolve_file_eq_null_iff stored shown some, Store.fileAt?_eq_none_iff, absent]
      intro parent found truthy
      obtain ⟨directory, dir, missing⟩ := nothing parent found truthy
      exact ⟨directory, dir, missing relative some⟩
    · rw [resolve_of_filled stored rfl rfl, Store.read_file_of_no_text path]

end Build

/-- When missing values lead nowhere. A list link to records of one type skips its nulls exactly when
each record of the type has an identifier. A list link by identifier always does, one that compares
a field exactly when the field is null in no record. And an object without a parent leads to no
file, unless a file without an identifier stands in for the parent. -/
theorem missing_leads_nowhere_iff (b : Build) (stored : List Record) :
    (∀ key type, (b.holding stored).SkipsNull (.mapping key type true) ↔
      ∀ r ∈ (Store.afterAdding stored).records, Store.isOfType type r = true →
        (Record.id r).isNull = false) ∧
    (∀ key linkedField, (b.holding stored).SkipsNull (.node key linkedField true) ↔
      ∀ field, linkedField = some field → field ≠ "" →
        ∀ r ∈ (Store.afterAdding stored).records, Dictionary.get? r field ≠ some .null) ∧
    ((∀ key source args query, (Record.get source "parent").isNull = true →
      ((b.holding stored).resolve (.file key) source args query).1 = .ok .null) ↔
      (Store.afterAdding stored).NothingForOrphans) := by
  have consistent := Store.consistent_additions stored
  refine ⟨fun key type => ?mapping, fun key linkedField => ?node, b.orphans_find_nothing_iff stored⟩
  case mapping =>
    rw [← Store.typed?_null_eq_none_iff]
    exact b.skipsNull_iff stored rfl fun source => rfl
  case node =>
    rw [← consistent.pointed?_null_eq_none_iff]
    exact b.skipsNull_iff stored rfl fun source => rfl

/-- A tag without an identifier, a note whose address is null, and a file without an identifier. Each
of them is taken for what a missing value stands for. -/
theorem missing_leads_to_records :
    let b := Build.start (.afterAdding [[("type", .text "Tag")],
      [("id", .text "n"), ("type", .text "Note"), ("mail", .null)],
      [("type", .text "File"), ("dir", .text "/site")],
      [("id", .text "g"), ("type", .text "File"), ("absolutePath", .text "/site/a.png")]]) .empty
      ⟨⟨2020, 1, 10⟩, 0, 0, 0, 0, 0⟩
    (b.resolve (.mapping "tags" "Tag" true) [("tags", .list [.null])] (.mapping []) none).1 =
        .ok (.list [.mapping [("type", .text "Tag")]]) ∧
      (b.resolve (.node "to" (some "mail") true) [("to", .list [.null])] (.mapping []) none).1 =
        .ok (.list [.mapping [("id", .text "n"), ("type", .text "Note"), ("mail", .null)]]) ∧
      (b.resolve (.file "cover") [("cover", .text "a.png")] (.mapping []) none).1 =
        .ok (.mapping [("id", .text "g"), ("type", .text "File"),
          ("absolutePath", .text "/site/a.png")]) := by
  refine ⟨?_, ?_, ?_⟩ <;> rfl

end ContentSchema
