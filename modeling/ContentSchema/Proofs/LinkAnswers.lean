import ContentSchema.Proofs.FileLinks

/-! Which records a link can be read of. The first record that shows something at the place of a
link decides whether it follows one value or several, and every other record is read that way. -/
namespace ContentSchema

namespace Store

/-- What a link gives: nothing, a record of the store, or several. -/
inductive Answer (s : Store) : Value → Prop where
  | nothing : s.Answer .null
  | one {r : Record} (listed : r ∈ s.records) : s.Answer (.mapping r)
  | several {rs : List Record} (listed : ∀ r ∈ rs, r ∈ s.records) :
      s.Answer (.list (rs.map .mapping))

/-- What a link can be read of: where it follows several values there are some to go through, or
nothing at all; and the directory of the file that is the parent is a text or missing. -/
def Follows (s : Store) (source : Record) : Resolver → Prop
  | .mapping key _ isList | .node key _ isList =>
    isList = true → (Record.get source key).isTruthy = true →
      (Query.members? (Record.get source key)).isSome = true
  | .file key => ∀ relative, Record.get source key = .text relative → relative ≠ "" →
    ∀ parent, s.typed? fileType (Record.get source "parent") = some parent →
      (Record.get parent "dir").isTruthy = true →
      ∃ directory, Record.get parent "dir" = .text directory
  | .date _ => True

section
variable {s : Store} {look : Value → Option Record} {isList : Bool} {source : Record}
  {resolver : Resolver} {v w : Value}

theorem Answer.ofRecord? {r : Option Record} (listed : ∀ found, r = some found → found ∈ s.records) :
    s.Answer (Value.ofRecord? r) := by
  cases r with
  | none => exact .nothing
  | some found => exact .one (listed found rfl)

theorem answer_of_followed (listed : ∀ v r, look v = some r → r ∈ s.records)
    (given : Query.followed look isList v = .ok w) : s.Answer w := by
  unfold Query.followed at given
  split at given
  · cases given
    exact .nothing
  · split at given
    · split at given
      · cases given
        refine .several fun r hr => ?_
        obtain ⟨v, _, found⟩ := List.mem_filterMap.mp hr
        exact listed v r found
      · cases given
    · cases given
      exact .ofRecord? (listed v)

theorem ok_followed_iff : (∃ w, Query.followed look isList v = .ok w) ↔
    (isList = true → v.isTruthy = true → (Query.members? v).isSome = true) := by
  unfold Query.followed
  cases v.isTruthy with
  | false => simp
  | true =>
    cases isList with
    | false => simp
    | true => cases Query.members? v <;> simp

/-- What a link gives are records of the store. -/
theorem Consistent.answer_of_read (h : s.Consistent) (given : s.read source resolver = .ok v) :
    s.Answer v := by
  cases resolver with
  | date fieldName =>
    cases given
    exact .nothing
  | mapping key type isList =>
    exact answer_of_followed (fun _ _ found => (mem_of_typed? found).1) given
  | node key linkedField isList =>
    exact answer_of_followed (fun _ _ found => h.mem_of_pointed? found) given
  | file key =>
    rw [read] at given
    split at given
    · rename_i relative _
      split at given
      · cases given
        exact .nothing
      · cases at_ : s.fileAt? source relative with
        | error e =>
          rw [at_] at given
          cases given
        | ok r =>
          rw [at_] at given
          cases given
          exact .ofRecord? fun found heq => (mem_of_fileAt? (heq ▸ at_)).1
    · cases given
      exact .nothing

theorem ok_fileAt?_iff {relative : String} : (∃ r, s.fileAt? source relative = .ok r) ↔
    ∀ parent, s.typed? fileType (Record.get source "parent") = some parent →
      (Record.get parent "dir").isTruthy = true → ∃ d, Record.get parent "dir" = .text d := by
  unfold fileAt?
  cases s.typed? fileType (Record.get source "parent") with
  | none => simp
  | some parent =>
    cases truthy : (Record.get parent "dir").isTruthy with
    | false => simp [truthy]
    | true => cases dir : Record.get parent "dir" <;> simp_all

/-- A link gives something of every record that it can be read of, and fails on all others. -/
theorem ok_read_iff : (∃ v, s.read source resolver = .ok v) ↔ s.Follows source resolver := by
  cases resolver with
  | date fieldName => exact ⟨fun _ => trivial, fun _ => ⟨.null, rfl⟩⟩
  | mapping key type isList => exact ok_followed_iff
  | node key linkedField isList => exact ok_followed_iff
  | file key =>
    by_cases path : ∃ relative, Record.get source key = .text relative ∧ relative ≠ ""
    · obtain ⟨relative, shown, some⟩ := path
      rw [read_file_of_text shown some, Follows, shown]
      simp only [Value.text.injEq, forall_eq', ne_eq, some, not_false_eq_true, forall_const]
      rw [← ok_fileAt?_iff]
      cases s.fileAt? source relative <;> simp [Except.map]
    · refine ⟨fun _ relative shown some => absurd ⟨relative, shown, some⟩ path, fun _ => ?_⟩
      exact ⟨.null, read_file_of_no_text path⟩

theorem Consistent.answers_iff (h : s.Consistent) :
    (∃ v, s.read source resolver = .ok v ∧ s.Answer v) ↔ s.Follows source resolver := by
  rw [← ok_read_iff]
  constructor
  · rintro ⟨v, given, _⟩
    exact ⟨v, given⟩
  · rintro ⟨v, given⟩
    exact ⟨v, given, h.answer_of_read given⟩

end
end Store

/-- A link of a record type answers for a record exactly when it can be read of it. Whether it goes
through several values is the same for all records: the first one that shows something there has
decided it. -/
theorem link_answers_iff_follows (b : Build) (records : List Record) :
    ∃ name type, (b.recordType (records.map Value.mapping)).1 = .ok name ∧
      (b.recordType (records.map Value.mapping)).2.site.registry.get? name = some type ∧
      ∀ path field f resolver,
        OutputFields.FieldAt (.named (.object name type.fields)) path field f →
        f.resolver = some resolver → resolver.isLink = true →
        (∃ v, (observations records (path ++ [.key resolver.key])).head? = some v ∧
          v.items?.isSome = resolver.followsMembers) ∧
        ∀ (reader : Build) (stored : List Record) (source : Record) (args : Value)
          (query : Option String),
          (∃ v, ((reader.holding stored).resolve resolver source args query).1 = .ok v ∧
            (Store.afterAdding stored).Answer v) ↔
              (Store.afterAdding stored).Follows source resolver := by
  obtain ⟨name, type, built, registered, _, placed, _⟩ := b.exists_linkPlaces records
  refine ⟨name, type, built, registered, fun path field f resolver within attached link => ?_⟩
  refine ⟨?shape, fun reader stored source args query => ?answers⟩
  case shape =>
    obtain ⟨_, v, holds, shape⟩ := placed _ _ _ within _ attached link
    obtain ⟨w, first, same⟩ := Example.head_observations holds (by simp)
    exact ⟨w, first, same.trans shape⟩
  case answers =>
    rw [Build.resolve_of_filled stored rfl link]
    exact (Store.consistent_additions stored).answers_iff

private def library : List Record :=
  [[("id", .text "f"), ("type", .text "File"), ("dir", .int 5)],
    [("id", .text "t"), ("type", .text "Tag")]]

private def tagged : Record :=
  [("id", .text "p"), ("type", .text "Post"), ("parent", .text "f"),
    ("tags___NODE", .list [.text "t"]), ("cover", .text "a.png")]

private def numbered : Record :=
  [("id", .text "q"), ("type", .text "Post"), ("tags___NODE", .int 5)]

private theorem ofRecords_posts : Example.ofRecords [tagged, numbered] = tagged := by
  refine Example.ofRecords_eq_of_merged (by rfl) ?_
  simp only [tagged, List.forall_mem_cons]
  refine ⟨Example.merge_leaf rfl _, Example.merge_leaf rfl _, Example.merge_leaf rfl _, ?tags,
    Example.merge_leaf rfl _, nofun⟩
  case tags =>
    refine (Example.merge_sequence rfl _).trans ?_
    exact congrArg _ (Example.merge_leaf rfl _)

/-- Of two posts one has tags in a list, the other has a number. Both are read as lists. The cover is
looked up from a directory that is a number. -/
theorem link_fails_on_other_shapes :
    let b := ((Build.start (.afterAdding (library ++ [tagged, numbered])) .empty
      ⟨⟨2020, 1, 10⟩, 0, 0, 0, 0, 0⟩).declareType fileType []).declareType "Tag" []
    let after := (b.recordType ([tagged, numbered].map Value.mapping)).2
    (b.recordType ([tagged, numbered].map Value.mapping)).1 = .ok "Post" ∧
      after.site.registry.get? "Post" = some ⟨[tagged, numbered].map Value.mapping,
        [("tags", OutputField.link "Tag" true (.node "tags___NODE" none true)),
          ("cover", OutputField.link fileType false (.file "cover"))]⟩ ∧
      (after.resolve (.node "tags___NODE" none true) numbered (.mapping []) none).1 =
        .error (.wrongKind (.int 5)) ∧
      (after.resolve (.file "cover") tagged (.mapping []) none).1 =
        .error (.wrongKind (.int 5)) := by
  intro b after
  have built : b.recordType ([tagged, numbered].map Value.mapping) = _ :=
    b.recordType_mapping [tagged, numbered]
  refine ⟨?_, ?_, ?_, ?_⟩
  · rw [built]
    rfl
  · simp only [after, built, Site.inferred, ofRecords_posts]
    rfl
  · rw [Build.resolve_of_filled (library ++ [tagged, numbered]) rfl rfl]
    rfl
  · rw [Build.resolve_of_filled (library ++ [tagged, numbered]) rfl rfl]
    rfl

end ContentSchema
