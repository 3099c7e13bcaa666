import ContentSchema.Proofs.LinkPlaces
import ContentSchema.Proofs.StoredLinks

/-! File links. The directory is that of the file that is the parent of the object itself, so that
paths are found at the root of a record, and inside it only where an object repeats the parent. -/
namespace ContentSchema

namespace Value

theorem same_null (v : Value) : v.same .null = v.isNull := by
  cases v <;> simp [same, quantity?, isNull]

theorem isNull_eq_of_same {v w : Value} (h : v.same w = true) : v.isNull = w.isNull :=
  isNull_eq_of_alike (by rw [alike, h, Bool.or_true])

/-- Nothing equals a value that is not a number. -/
theorem isNaN_of_same {v w : Value} (h : v.same w = true) : w.isNaN = false := by
  cases w with
  | float x =>
    cases x with
    | nan mark => cases v <;> simp [same, quantity?, Binary64.quantity, Quantity.same] at h
    | _ => rfl
  | _ => rfl

/-- A value that has nothing but another value at a path. -/
def nested : List PathStep → Value → Value
  | [], v => v
  | .key name :: path, v => .mapping [(name, nested path v)]
  | .element :: path, v => .list [nested path v]

theorem holds_nested (path : List PathStep) (v : Value) : (nested path v).Holds path v := by
  induction path with
  | nil => exact .here v
  | cons step path ih =>
    cases step with
    | key name => exact .key (if_pos rfl) ih
    | element => exact .element rfl (List.mem_singleton_self _) ih

end Value

namespace Store

/-- The first file at an absolute path. -/
def fileWith? (s : Store) (path : String) : Option Record :=
  s.records.find? fun r => isOfType fileType r && (Record.get r "absolutePath").same (.text path)

/-- A file is the parent of a record, which names it by its identifier. -/
structure IsParentFile (s : Store) (source parent : Record) : Prop where
  listed : parent ∈ s.records
  file : isOfType fileType parent = true
  present : (Record.id parent).isNull = false
  named : (Record.id parent).same (Record.get source "parent") = true

section
variable {s : Store} {source parent : Record} {key relative directory : String}

/-- Only one file is the parent of a record. -/
theorem Consistent.typed?_parent (h : s.Consistent) (isParent : s.IsParentFile source parent) :
    s.typed? fileType (Record.get source "parent") = some parent := by
  obtain ⟨listed, file, present, named⟩ := isParent
  obtain ⟨e, he, rfl⟩ := List.mem_map.mp listed
  rw [Value.isNull_eq_of_same named] at present
  have defined := Value.isNaN_of_same named
  have found := (h.indexed?_eq_some_iff_same present defined).mpr ⟨he, named⟩
  rw [h.typed?_eq_filter present defined, h.identified?_eq present defined, found, Option.map_some,
    Option.filter_some, if_pos file]

theorem fileAt?_of_parent (found : s.typed? fileType (Record.get source "parent") = some parent)
    (dir : Record.get parent "dir" = .text directory) (nonempty : directory ≠ "") :
    s.fileAt? source relative = .ok (s.fileWith? (Path.resolve directory relative)) := by
  have truthy : (Value.text directory).isTruthy = true := by simp [Value.isTruthy, nonempty]
  rw [fileAt?, found]
  simp only [dir, truthy]
  rfl

/-- Without a parent file, or from one without a directory, no file is found. Else the directory has
to be a text from which there is no file at the path. -/
theorem fileAt?_eq_none_iff : s.fileAt? source relative = .ok none ↔
    ∀ parent, s.typed? fileType (Record.get source "parent") = some parent →
      (Record.get parent "dir").isTruthy = true →
      ∃ d, Record.get parent "dir" = .text d ∧ s.fileWith? (Path.resolve d relative) = none := by
  rw [fileAt?]
  cases s.typed? fileType (Record.get source "parent") with
  | none => simp
  | some parent =>
    cases truthy : (Record.get parent "dir").isTruthy with
    | false => simp [truthy]
    | true =>
      cases dir : Record.get parent "dir" with
      | text d => simp_all [fileWith?]
      | _ => simp_all

theorem read_file_of_text (shown : Record.get source key = .text relative)
    (nonempty : relative ≠ "") :
    s.read source (.file key) = (s.fileAt? source relative).map Value.ofRecord? := by
  have some : relative.isEmpty = false := by simp [nonempty]
  rw [read, shown]
  simp only [some]
  rfl

theorem read_file_of_no_text
    (missing : ¬ ∃ relative, Record.get source key = .text relative ∧ relative ≠ "") :
    s.read source (.file key) = .ok .null := by
  rw [read]
  split
  · rename_i relative shown
    rw [if_pos]
    by_contra some
    exact missing ⟨relative, shown, by simpa using some⟩
  · rfl

/-- Without a parent among the files, a file link gives nothing. -/
theorem read_file_of_no_parent
    (missing : s.typed? fileType (Record.get source "parent") = none) :
    s.read source (.file key) = .ok .null := by
  by_cases path : ∃ relative, Record.get source key = .text relative ∧ relative ≠ ""
  · obtain ⟨relative, shown, some⟩ := path
    rw [read_file_of_text shown some, fileAt?, missing]
    rfl
  · exact read_file_of_no_text path

end
end Store

/-- Whether a file link finds, for an object inside a record, the first file at the path that the
object has under a key, read from the directory of the parent of the record. -/
def Build.FindsFile (b : Build) (key : String) (r o : Record) : Prop :=
  ∀ parent directory relative, b.site.store.IsParentFile r parent →
    Record.get parent "dir" = .text directory → directory ≠ "" →
    Record.get o key = .text relative → relative ≠ "" →
    ∀ args path, (b.resolve (.file key) o args path).1 =
      .ok (Value.ofRecord? (b.site.store.fileWith? (Path.resolve directory relative)))

/-- An object that has the parent itself leads to its files. -/
theorem Build.findsFile_of_own_parent (b : Build) (stored : List Record) (key : String)
    (o : Record) : (b.holding stored).FindsFile key o o := by
  intro parent directory relative isParent dir nonempty shown some args path
  have found := (Store.consistent_additions stored).typed?_parent isParent
  rw [resolve_of_filled stored rfl rfl, Store.read_file_of_text shown some,
    Store.fileAt?_of_parent found dir nonempty]
  rfl

/-- A file, which is the parent of itself, and from which it is found as x. -/
private def alone : Record :=
  [("id", .text "f"), ("type", .text "File"), ("dir", .text "/"),
    ("absolutePath", .text (Path.resolve "/" "x"))]

private theorem isParentFile_alone {r : Record} (h : Record.get r "parent" = .text "f") :
    (Store.afterAdding [alone]).IsParentFile r alone := by
  refine ⟨List.mem_singleton_self _, rfl, rfl, ?_⟩
  rw [h]
  rfl

/-- Inside a record there is always an object for which the path is not found. -/
theorem Build.exists_not_findsFile (b : Build) {name : String} (noParent : name ≠ "parent")
    (path : List PathStep) (key : String) :
    ∃ stored r o, (Value.mapping r).Holds (.key name :: path) (.mapping o) ∧
      ¬ (b.holding stored).FindsFile key r o := by
  let o : Record := [(key, .text "x")]
  let r : Record := [("parent", .text "f"), (name, Value.nested path (.mapping o))]
  have shown : Record.get o key = .text "x" := by simp [o, Record.get, Dictionary.get?]
  refine ⟨[alone], r, o, .key ?_ (Value.holds_nested path _), fun finds => ?_⟩
  · simp [r, Dictionary.get?, Ne.symm noParent]
  · have gives := finds alone "/" "x" (isParentFile_alone rfl) rfl (by decide) shown (by decide)
      .null none
    -- The object has no parent, unless the path itself stands under that key.
    have missing : (Store.afterAdding [alone]).typed? fileType (Record.get o "parent") = none := by
      by_cases h : key = "parent"
      · subst h
        rw [shown]
        rfl
      · have absent : Record.get o "parent" = .null := by
          simp [o, Record.get, Dictionary.get?, h]
        rw [absent]
        rfl
    rw [resolve_of_filled [alone] rfl rfl, Store.read_file_of_no_parent missing] at gives
    have found : (Store.afterAdding [alone]).fileWith? (Path.resolve "/" "x") = some alone := by
      have same : (Record.get alone "absolutePath").same (.text (Path.resolve "/" "x")) = true :=
        beq_self_eq_true _
      have all : (Store.afterAdding [alone]).records = [alone] := rfl
      rw [Store.fileWith?, all, List.find?_cons_of_pos]
      rw [same]
      rfl
    change _ = Except.ok (Value.ofRecord? ((Store.afterAdding [alone]).fileWith? _)) at gives
    rw [found] at gives
    cases gives

/-- File links of a record type read the key that they are named for. On an object with a parent of
its own they find the files there. That they find those of the parent of the record is so for the
links at the root of the record, and for no other. -/
theorem fileLink_finds_file_iff_at_root (b : Build) (records : List Record) :
    ∃ name type, (b.recordType (records.map Value.mapping)).1 = .ok name ∧
      (b.recordType (records.map Value.mapping)).2.site.registry.get? name = some type ∧
      ∀ path field f key, OutputFields.FieldAt (.named (.object name type.fields)) path field f →
        f.resolver = some (.file key) →
        key = field ∧
          (∀ (reader : Build) (stored : List Record) (o : Record),
            (reader.holding stored).FindsFile key o o) ∧
          ((∀ (reader : Build) (stored : List Record) (r o : Record),
            (Value.mapping r).Holds path (.mapping o) → (reader.holding stored).FindsFile key r o) ↔
              path = []) := by
  obtain ⟨name, type, built, registered, _, placed, below⟩ := b.exists_linkPlaces records
  refine ⟨name, type, built, registered, fun path field f key within attached => ?_⟩
  refine ⟨(placed _ _ _ within _ attached rfl).1,
    fun reader stored o => reader.findsFile_of_own_parent stored key o, ?deep, ?root⟩
  case deep =>
    intro finds
    cases path with
    | nil => rfl
    | cons step path =>
      cases step with
      | element => cases within
      | key first =>
        have noParent : first ≠ "parent" := by
          rintro rfl
          exact below _ _ _ _ within (by decide)
        obtain ⟨stored, r, o, holds, not⟩ := b.exists_not_findsFile noParent path key
        exact absurd (finds b stored r o holds) not
  case root =>
    rintro rfl reader stored r o holds
    cases holds
    exact reader.findsFile_of_own_parent stored key _

private def files : List Record :=
  [[("id", .text "f"), ("type", .text "File"), ("dir", .text "/site"),
      ("absolutePath", .text "/site/post.md")],
    [("id", .text "g"), ("type", .text "File"), ("dir", .text "/site"),
      ("absolutePath", .text "/site/a.png")]]

private def post : Record :=
  [("id", .text "p"), ("type", .text "Post"), ("parent", .text "f"),
    ("frontmatter", .mapping [("cover", .text "a.png")])]

private theorem ofRecords_post : Example.ofRecords [post] = post := by
  have cover : Example.ofRecords [[("cover", .text "a.png")]] = [("cover", .text "a.png")] :=
    Example.ofRecords_singleton (by decide)
      (List.forall_mem_singleton.mpr (Example.merge_leaf rfl _))
  refine Example.ofRecords_singleton (by decide) ?_
  simp only [post, List.forall_mem_cons]
  exact ⟨Example.merge_leaf rfl _, Example.merge_leaf rfl _, Example.merge_leaf rfl _,
    Example.merge_singleton_mapping nofun cover, nofun⟩

/-- The cover in the front matter of a post is a file link. The file stands beside the parent of the
post, but the front matter has no parent. -/
theorem fileLink_in_front_matter_finds_nothing :
    let b := (Build.start (.afterAdding (files ++ [post])) .empty
      ⟨⟨2020, 1, 10⟩, 0, 0, 0, 0, 0⟩).declareType fileType []
    let after := (b.recordType ([post].map Value.mapping)).2
    (b.recordType ([post].map Value.mapping)).1 = .ok "Post" ∧
      after.site.registry.get? "Post" = some ⟨[post].map Value.mapping,
        [("frontmatter", OutputField.plain (.named (.object "PostFrontmatter"
          [("cover", OutputField.link fileType false (.file "cover"))])))]⟩ ∧
      (after.resolve (.file "cover") [("cover", .text "a.png")] (.mapping []) none).1 = .ok .null ∧
      after.site.store.fileWith? (Path.resolve "/site" "a.png") =
        some [("id", .text "g"), ("type", .text "File"), ("dir", .text "/site"),
          ("absolutePath", .text "/site/a.png")] := by
  intro b after
  have built : b.recordType ([post].map Value.mapping) = _ := b.recordType_mapping [post]
  refine ⟨?_, ?_, ?_, ?_⟩
  · rw [built]
    rfl
  · simp only [after, built, Site.inferred, ofRecords_post]
    rfl
  · rw [Build.resolve_of_filled (files ++ [post]) rfl rfl]
    rfl
  · have all : after.site.store.records = files ++ [post] := rfl
    have at_ : Path.resolve "/site" "a.png" = "/site/a.png" := by rfl
    rw [Store.fileWith?, all, at_]
    rfl

end ContentSchema
