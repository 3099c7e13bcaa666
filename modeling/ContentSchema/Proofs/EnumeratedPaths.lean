import ContentSchema.Proofs.LegalNames
import Mathlib.Data.List.Infix
import Mathlib.Data.Set.Function

/-! Which leaf paths can be told apart in the enumeration of sortable fields. A name shows all
characters that it may not hold in one way, and a dotted text does not show where a key ends that
has a dot in it, so that paths get lost. None is lost where nothing is replaced in the keys and the
joined paths can be read back. -/
namespace ContentSchema

namespace TypeName

/-- Characters that a name shows in one way: the same one twice, or two of those that are neither
letters nor digits. -/
def ShownAlike (c d : Char) : Prop := c = d ∨ c.isAlphanum = false ∧ d.isAlphanum = false

theorem shown_eq (c : Char) : shown c = if c.isAlphanum then c else '_' := by
  rw [shown, isNameChar]
  cases c.isAlphanum with
  | true => rfl
  | false =>
    rw [Bool.false_or, if_neg Bool.false_ne_true]
    split
    · rename_i underscore
      exact beq_iff_eq.mp underscore
    · rfl

theorem shown_eq_iff {c d : Char} : shown c = shown d ↔ ShownAlike c d := by
  have replaced {c d : Char} (hc : c.isAlphanum = true) (hd : d.isAlphanum = false) : c ≠ d := by
    rintro rfl
    cases hc.symm.trans hd
  have underscore : '_'.isAlphanum = false := by decide
  rw [shown_eq, shown_eq, ShownAlike]
  cases hc : c.isAlphanum <;> cases hd : d.isAlphanum
  · simp
  · simp [(replaced hd hc).symm, (replaced hd underscore).symm]
  · simp [replaced hc hd, replaced hc underscore]
  · simp

theorem isDigit_shown (c : Char) : (shown c).isDigit = c.isDigit := by
  rw [shown_eq]
  split
  · rfl
  · rename_i other
    cases digit : c.isDigit with
    | true => exact absurd (by rw [Char.isAlphanum, digit, Bool.or_true]) other
    | false => decide

theorem guardDigit_map_shown (cs : List Char) :
    guardDigit (cs.map shown) = (guardDigit cs).map shown := by
  cases cs with
  | nil => rfl
  | cons c rest =>
    have underscore : shown '_' = '_' := by decide
    rw [List.map_cons, guardDigit, guardDigit, isDigit_shown]
    split
    · rw [List.map_cons, List.map_cons, underscore]
    · rfl

/-- A text that may begin a name is shown as it is. -/
theorem guardDigit_map_shown_of_beginsName {text : String} (begins : beginsName text = true) :
    guardDigit (text.toList.map shown) = text.toList := by
  obtain ⟨named, noDigit⟩ := beginsName_iff.mp begins
  have same : text.toList.map shown = text.toList :=
    (List.map_congr_left fun c hc => if_pos (named c hc)).trans (List.map_id _)
  rw [same]
  cases spelled : text.toList with
  | nil => rfl
  | cons c rest =>
    rw [guardDigit, noDigit c (by rw [spelled]; rfl)]
    rfl

end TypeName

namespace SortFields
open ContentSchema.TypeName (ShownAlike)

/-- A joined path as its name spells it, before any character is replaced. -/
def spelled (path : List String) : List Char :=
  TypeName.guardDigit ("___".intercalate path).toList

/-- Two paths have one name exactly when they are spelled alike. -/
theorem enumName_eq_iff {p q : List String} :
    enumName p = enumName q ↔ List.Forall₂ ShownAlike (spelled p) (spelled q) := by
  have named (path : List String) :
      enumName path = String.ofList ((spelled path).map TypeName.shown) := by
    rw [enumName_eq, TypeName.guardDigit_map_shown]
    rfl
  rw [named, named, String.ofList_inj, ← List.forall₂_eq_eq_eq, List.forall₂_map_left_iff,
    List.forall₂_map_right_iff]
  simp only [TypeName.shown_eq_iff]

/-- A key that a joined path shows as it is, and that ends where the path goes on: it may begin a
name, and it can be told from the three underscores that stand between keys. -/
structure IsPlainKey (key : String) : Prop where
  begins : TypeName.beginsName key = true
  apart : Text.StaysApart 3 '_' key.toList

instance (key : String) : Decidable (IsPlainKey key) :=
  decidable_of_iff (TypeName.beginsName key = true ∧ ¬ List.replicate 3 '_' <:+: key.toList ∧
    key.toList.getLast? ≠ some '_')
    ⟨fun h => ⟨h.1, h.2.1, h.2.2⟩, fun h => ⟨h.begins, h.apart.single, h.apart.ends⟩⟩

/-- A path of plain keys may begin a name. -/
theorem beginsName_intercalate {path : List String} (plain : ∀ key ∈ path, IsPlainKey key) :
    TypeName.beginsName ("___".intercalate path) = true := by
  induction path with
  | nil => decide
  | cons key path ih =>
    obtain ⟨first, others⟩ := List.forall_mem_cons.mp plain
    cases path with
    | nil =>
      rw [String.intercalate_singleton]
      exact first.begins
    | cons next path =>
      have legal : TypeName.isLegal ("___" ++ "___".intercalate (next :: path)) = true :=
        TypeName.isLegal_append_of_all (by decide) (TypeName.beginsName_iff.mp (ih others)).1
      rw [String.intercalate_cons_cons, String.append_assoc]
      exact (TypeName.isLegal_iff.mp ((TypeName.isLegal_append_iff legal).mpr first.begins)).2

/-- The name of a path of plain keys is the joined path as it is. -/
theorem enumName_of_plain {path : List String} (plain : ∀ key ∈ path, IsPlainKey key) :
    enumName path = "___".intercalate path := by
  rw [enumName_eq, TypeName.guardDigit_map_shown_of_beginsName (beginsName_intercalate plain),
    String.ofList_toList]

private theorem map_toList_inj {p q : List String} :
    p.map String.toList = q.map String.toList ↔ p = q :=
  (List.map_injective_iff.mpr fun _ _ => String.toList_injective).eq_iff

theorem enumName_inj_of_plain {p q : List String} (hp : ∀ key ∈ p, IsPlainKey key)
    (hq : ∀ key ∈ q, IsPlainKey key) (some : p ≠ []) (some' : q ≠ []) :
    enumName p = enumName q ↔ p = q := by
  refine ⟨fun same => ?_, congrArg enumName⟩
  have delimiter : "___".toList = List.replicate 3 '_' := rfl
  rw [enumName_of_plain hp, enumName_of_plain hq, ← String.toList_inj, String.toList_intercalate,
    String.toList_intercalate, delimiter] at same
  rw [← map_toList_inj]
  refine Text.intercalate_replicate_inj ?_ ?_ ?_ ?_ same
  · exact List.forall_mem_map.mpr fun key hkey => (hp key hkey).apart
  · exact List.forall_mem_map.mpr fun key hkey => (hq key hkey).apart
  · exact mt List.map_eq_nil_iff.mp some
  · exact mt List.map_eq_nil_iff.mp some'

theorem IsPlainKey.noDot {key : String} (plain : IsPlainKey key) : '.' ∉ key.toList := by
  intro dot
  cases (TypeName.beginsName_iff.mp plain.begins).1 '.' dot

theorem dotted_inj_of_plain {p q : List String} (hp : ∀ key ∈ p, IsPlainKey key)
    (hq : ∀ key ∈ q, IsPlainKey key) (some : p ≠ []) (some' : q ≠ []) :
    ".".intercalate p = ".".intercalate q ↔ p = q := by
  have dot : ".".toList = ['.'] := rfl
  rw [← map_toList_inj, ← String.toList_inj, String.toList_intercalate, String.toList_intercalate,
    dot]
  refine Text.intercalate_inj ?_ ?_ ?_ ?_
  · exact List.forall_mem_map.mpr fun key hkey => (hp key hkey).noDot
  · exact List.forall_mem_map.mpr fun key hkey => (hq key hkey).noDot
  · exact mt List.map_eq_nil_iff.mp some
  · exact mt List.map_eq_nil_iff.mp some'

/-- A path along which records can be sorted: a leaf path of their example. -/
def IsSortable (records : List Record) (path : List String) : Prop :=
  IsLeafPath maxDepth (Example.ofRecords records) path

/-- The entries are those of the leaf paths, each with the name and the dotted text of its own, and
neither names nor texts are shared. -/
structure OneToOne (records : List Record) : Prop where
  entries : ∀ name text, (name, text) ∈ ofRecords records ↔
    ∃ path, IsSortable records path ∧ enumName path = name ∧ ".".intercalate path = text
  names : Set.InjOn enumName {path | IsSortable records path}
  texts : Set.InjOn (".".intercalate ·) {path | IsSortable records path}

theorem isSortable_iff {records : List Record} {path : List String} :
    IsSortable records path ↔ path ∈ leaves maxDepth [] (Example.ofRecords records) :=
  (mem_leaves_iff (Example.keysDistinct_ofRecords records).own
    fun _ => Example.isNormal_of_mem_ofRecords).symm

theorem mem_ofRecords_iff {records : List Record} {name text : String} :
    (name, text) ∈ ofRecords records ↔
      ((leaves maxDepth [] (Example.ofRecords records)).find? fun path => enumName path = name).map
        (".".intercalate ·) = some text := by
  rw [← get?_ofRecords]
  exact ⟨Dictionary.get?_eq_of_mem (nodup_keys_ofRecords records), Dictionary.mem_of_get?⟩

/-- Where no two leaf paths share a name, each one is the first of its name. -/
theorem find?_leaves {records : List Record}
    (names : Set.InjOn enumName {path | IsSortable records path}) {path : List String}
    (sortable : IsSortable records path) :
    (leaves maxDepth [] (Example.ofRecords records)).find?
      (fun other => enumName other = enumName path) = some path := by
  have named : ((leaves maxDepth [] (Example.ofRecords records)).find?
      fun other => enumName other = enumName path).isSome :=
    List.find?_isSome.mpr ⟨path, isSortable_iff.mp sortable, decide_eq_true rfl⟩
  obtain ⟨first, found⟩ := Option.isSome_iff_exists.mp named
  have same : enumName first = enumName path := by
    simpa using List.find?_some found
  have sortableFirst := isSortable_iff.mpr (List.mem_of_find?_eq_some found)
  rw [found, names sortableFirst sortable same]

theorem oneToOne_of_injOn {records : List Record}
    (names : Set.InjOn enumName {path | IsSortable records path})
    (texts : Set.InjOn (".".intercalate ·) {path | IsSortable records path}) :
    OneToOne records := by
  refine ⟨fun name text => ?_, names, texts⟩
  rw [mem_ofRecords_iff, Option.map_eq_some_iff]
  constructor
  · rintro ⟨path, found, rfl⟩
    have leaf := isSortable_iff.mpr (List.mem_of_find?_eq_some found)
    exact ⟨path, leaf, by simpa using List.find?_some found, rfl⟩
  · rintro ⟨path, sortable, rfl, rfl⟩
    exact ⟨path, find?_leaves names sortable, rfl⟩

/-- For each name, the enumeration has the text of the first leaf path of this name, and every leaf
path of the example is looked at. So the leaf paths and the entries correspond one to one exactly
when no two different leaf paths are spelled alike or have one dotted text; this is so where all
keys on the leaf paths are plain. -/
theorem oneToOne_iff (records : List Record) :
    let paths := leaves maxDepth [] (Example.ofRecords records)
    (∀ path, path ∈ paths ↔ IsSortable records path) ∧
      (Dictionary.keys (ofRecords records)).Nodup ∧
      (∀ name, Dictionary.get? (ofRecords records) name =
        (paths.find? fun path => enumName path = name).map (".".intercalate ·)) ∧
      (OneToOne records ↔ ∀ p q, IsSortable records p → IsSortable records q → p ≠ q →
        ¬ List.Forall₂ ShownAlike (spelled p) (spelled q) ∧
          ".".intercalate p ≠ ".".intercalate q) ∧
      ((∀ path, IsSortable records path → ∀ key ∈ path, IsPlainKey key) → OneToOne records) := by
  intro paths
  refine ⟨fun path => isSortable_iff.symm, nodup_keys_ofRecords records, get?_ofRecords records,
    ⟨fun oneToOne p q hp hq apart => ⟨?_, ?_⟩, fun apart => ?_⟩, fun plain => ?_⟩
  · rw [← enumName_eq_iff]
    exact oneToOne.names.ne hp hq apart
  · exact oneToOne.texts.ne hp hq apart
  · refine oneToOne_of_injOn (fun p hp q hq same => ?_) fun p hp q hq same => ?_
    · by_contra different
      exact (apart p q hp hq different).1 (enumName_eq_iff.mp same)
    · by_contra different
      exact (apart p q hp hq different).2 same
  · refine oneToOne_of_injOn (fun p hp q hq => ?_) fun p hp q hq => ?_
    · exact (enumName_inj_of_plain (plain p hp) (plain q hq) hp.some hq.some).mp
    · exact (dotted_inj_of_plain (plain p hp) (plain q hq) hp.some hq.some).mp

end SortFields

private def page : Record :=
  [("slug", .text "/on-tags"), ("frontmatter", .mapping [("title", .text "On tags"),
    ("tags", .list [.text "go"])])]

private theorem ofRecords_page : Example.ofRecords [page] = page := by
  refine Example.ofRecords_singleton_iff.mpr ⟨by decide, ?_⟩
  simp only [page, List.forall_mem_cons]
  refine ⟨.leaf rfl, .mapping nofun (by decide) ?_, nofun⟩
  simp only [List.forall_mem_cons]
  exact ⟨.leaf rfl, .list (.leaf rfl), nofun⟩

/-- All keys of a page are plain, and those of its front matter. -/
theorem oneToOne_page : SortFields.OneToOne [page] := by
  refine (SortFields.oneToOne_iff [page]).2.2.2.2 fun path sortable => ?_
  rw [SortFields.isSortable_iff, ofRecords_page] at sortable
  revert path
  decide +kernel

private def twoNames : Record := [("first-name", .text "Ann"), ("first_name", .text "Bo")]

private theorem ofRecords_twoNames : Example.ofRecords [twoNames] = twoNames := by
  refine Example.ofRecords_singleton_iff.mpr ⟨by decide, ?_⟩
  simp only [twoNames, List.forall_mem_cons]
  exact ⟨.leaf rfl, .leaf rfl, nofun⟩

private def twoPaths : Record := [("a.b", .int 1), ("a", .mapping [("b", .int 2)])]

private theorem ofRecords_twoPaths : Example.ofRecords [twoPaths] = twoPaths := by
  refine Example.ofRecords_singleton_iff.mpr ⟨by decide, ?_⟩
  simp only [twoPaths, List.forall_mem_cons]
  exact ⟨.leaf rfl, .mapping nofun (by decide) (List.forall_mem_singleton.mpr (.leaf rfl)), nofun⟩

/-- Of two keys that a name shows alike one is dropped, and a key with a dot in it has the text of a
longer path. -/
theorem firstName_dropped :
    SortFields.ofRecords [twoNames] = [("first_name", "first-name")] ∧
      SortFields.IsSortable [twoNames] ["first-name"] ∧
      SortFields.IsSortable [twoNames] ["first_name"] ∧ ¬ SortFields.OneToOne [twoNames] ∧
      SortFields.ofRecords [twoPaths] = [("a_b", "a.b"), ("a___b", "a.b")] ∧
      ¬ SortFields.OneToOne [twoPaths] := by
  have hyphen : SortFields.IsSortable [twoNames] ["first-name"] := by
    rw [SortFields.isSortable_iff, ofRecords_twoNames]
    decide
  have underscore : SortFields.IsSortable [twoNames] ["first_name"] := by
    rw [SortFields.isSortable_iff, ofRecords_twoNames]
    decide
  have dotted : SortFields.IsSortable [twoPaths] ["a.b"] := by
    rw [SortFields.isSortable_iff, ofRecords_twoPaths]
    decide
  have nested : SortFields.IsSortable [twoPaths] ["a", "b"] := by
    rw [SortFields.isSortable_iff, ofRecords_twoPaths]
    decide
  refine ⟨?_, hyphen, underscore, fun oneToOne => ?_, ?_, fun oneToOne => ?_⟩
  · rw [SortFields.ofRecords, ofRecords_twoNames]
    decide +kernel
  · exact absurd (oneToOne.names hyphen underscore (by decide +kernel)) (by decide)
  · rw [SortFields.ofRecords, ofRecords_twoPaths]
    decide +kernel
  · exact absurd (oneToOne.texts dotted nested (by decide +kernel)) (by decide)

end ContentSchema
