import ContentSchema.Proofs.NormalExamples
import ContentSchema.SortFields

/-! The leaf paths of an example, and which of them the enumeration of sortable fields keeps. A leaf
path leads along keys, as deep as paths may reach or to something other than a mapping. -/
namespace ContentSchema.SortFields

theorem leaves_eq_map (levels : Nat) (path : List String) (fields : Record) :
    leaves levels path fields = (leaves levels [] fields).map (path ++ ·) := by
  induction levels generalizing path fields with
  | zero => rfl
  | succ level ih =>
    rw [leaves, leaves, List.map_flatMap]
    refine List.flatMap_congr fun (key, child) _ => ?_
    dsimp only
    split
    · split
      · rfl
      · rw [ih (path ++ [key]), ih ([] ++ [key]), List.map_map]
        refine List.map_congr_left fun below _ => ?_
        simp
    · rfl

/-- How leaf paths go on after a key, by what stands under it. -/
def leavesUnder (level : Nat) : Value → List (List String)
  | .mapping (field :: rest) => if level = 0 then [[]] else leaves level [] (field :: rest)
  | _ => [[]]

theorem leaves_succ (level : Nat) (fields : Record) :
    leaves (level + 1) [] fields =
      fields.flatMap fun (key, child) => (leavesUnder level child).map (key :: ·) := by
  rw [leaves]
  refine List.flatMap_congr fun (key, child) _ => ?_
  dsimp only
  split
  · rw [leavesUnder]
    split
    · rfl
    · rw [leaves_eq_map]
      rfl
  · rename_i plain
    rw [leavesUnder]
    · rfl
    · exact plain

theorem mem_leaves_succ_iff {level : Nat} {fields : Record} {path : List String} :
    path ∈ leaves (level + 1) [] fields ↔ ∃ key child below, path = key :: below ∧
      (key, child) ∈ fields ∧ below ∈ leavesUnder level child := by
  rw [leaves_succ, List.mem_flatMap]
  constructor
  · rintro ⟨⟨key, child⟩, mem, h⟩
    obtain ⟨below, under, rfl⟩ := List.mem_map.mp h
    exact ⟨key, child, below, rfl, mem, under⟩
  · rintro ⟨key, child, below, rfl, mem, under⟩
    exact ⟨(key, child), mem, List.mem_map_of_mem under⟩

theorem ne_nil_of_mem_leaves {levels : Nat} {fields : Record} {path : List String}
    (h : path ∈ leaves levels [] fields) : path ≠ [] := by
  cases levels with
  | zero => cases h
  | succ level =>
    obtain ⟨key, _, below, rfl, _⟩ := mem_leaves_succ_iff.mp h
    exact List.cons_ne_nil key below

theorem nil_mem_leavesUnder_iff {level : Nat} {child : Value} :
    [] ∈ leavesUnder level child ↔
      level = 0 ∨ ∀ field rest, child ≠ .mapping (field :: rest) := by
  unfold leavesUnder
  split
  · split
    · rename_i none
      simp [none]
    · rename_i more
      have noPath (fields : Record) : [] ∉ leaves level [] fields :=
        fun h => absurd rfl (ne_nil_of_mem_leaves h)
      simp [more, noPath]
  · rename_i plain
    exact iff_of_true (List.mem_singleton_self _) (Or.inr plain)

/-- A key alone is a leaf unless a mapping with fields stands under it. -/
theorem singleton_mem_leaves_iff {key : String} {fields : Record} :
    [key] ∈ leaves maxDepth [] fields ↔
      ∃ child, (key, child) ∈ fields ∧ ∀ field rest, child ≠ .mapping (field :: rest) := by
  rw [maxDepth, mem_leaves_succ_iff]
  constructor
  · rintro ⟨_, child, _, ⟨⟩, mem, under⟩
    exact ⟨child, mem, (nil_mem_leavesUnder_iff.mp under).resolve_left nofun⟩
  · rintro ⟨child, mem, plain⟩
    exact ⟨key, child, [], rfl, mem, nil_mem_leavesUnder_iff.mpr (Or.inr plain)⟩

/-- A path of keys, no longer than there are levels, that leads to something in a record. It leads
as deep as there are levels, or to something other than a mapping. -/
structure IsLeafPath (levels : Nat) (fields : Record) (path : List String) : Prop where
  some : path ≠ []
  short : path.length ≤ levels
  leads : ∃ v, Value.Holds (.mapping fields) (path.map .key) v ∧
    (path.length = levels ∨ v.fields? = none)

/-- A leaf path ends with its first key when no fields stand under it or no levels are left. -/
theorem isLeafPath_cons_iff {level : Nat} {fields : Record} {key : String} {below : List String} :
    IsLeafPath (level + 1) fields (key :: below) ↔ ∃ child, Dictionary.get? fields key = some child ∧
      (below = [] ∧ (level = 0 ∨ child.fields? = none) ∨
        ∃ inner, child = .mapping inner ∧ IsLeafPath level inner below) := by
  constructor
  · rintro ⟨-, short, v, holds, ends⟩
    rw [List.length_cons, Nat.add_le_add_iff_right] at short
    rw [List.length_cons, Nat.add_right_cancel_iff] at ends
    rw [List.map_cons] at holds
    cases holds with
    | @key _ _ child _ _ found deeper =>
      refine ⟨child, found, ?_⟩
      cases below with
      | nil =>
        cases deeper
        exact Or.inl ⟨rfl, ends.imp_left Eq.symm⟩
      | cons next below =>
        obtain ⟨inner, rfl⟩ : ∃ inner, child = .mapping inner := by
          cases deeper
          exact ⟨_, rfl⟩
        exact Or.inr ⟨inner, rfl, List.cons_ne_nil _ _, short, v, deeper, ends⟩
  · rintro ⟨child, found, ⟨rfl, ends⟩ | ⟨inner, rfl, -, short, v, holds, ends⟩⟩
    · exact ⟨List.cons_ne_nil _ _, by simp, child, .key found (.here child),
        ends.imp_left (congrArg (· + 1) ·.symm)⟩
    · exact ⟨List.cons_ne_nil _ _, Nat.succ_le_succ short, v, .key found holds,
        ends.imp_left (congrArg (· + 1))⟩

theorem mem_leavesUnder_of_plain {level : Nat} {child : Value} (plain : child.fields? = none)
    {below : List String} : below ∈ leavesUnder level child ↔ below = [] := by
  cases child with
  | mapping fields => cases plain
  | _ => exact List.mem_singleton

theorem mem_leavesUnder_mapping {level : Nat} {fields : Record} (some : fields ≠ [])
    {below : List String} : below ∈ leavesUnder level (.mapping fields) ↔
      below = [] ∧ level = 0 ∨ below ∈ leaves level [] fields := by
  obtain ⟨field, rest, rfl⟩ := List.exists_cons_of_ne_nil some
  rw [leavesUnder]
  split
  · rename_i none
    simp [none, leaves]
  · rename_i more
    simp [more]

/-- The leaves of fields in normal form are their leaf paths. -/
theorem mem_leaves_iff {levels : Nat} {fields : Record} {path : List String}
    (distinct : (Dictionary.keys fields).Nodup) (each : ∀ field ∈ fields, field.2.IsNormal) :
    path ∈ leaves levels [] fields ↔ IsLeafPath levels fields path := by
  induction levels generalizing fields path with
  | zero =>
    exact ⟨nofun, fun leaf => absurd (List.eq_nil_of_length_eq_zero (Nat.le_zero.mp leaf.short))
      leaf.some⟩
  | succ level ih =>
    have under {child : Value} (normal : child.IsNormal) (below : List String) :
        below ∈ leavesUnder level child ↔ below = [] ∧ (level = 0 ∨ child.fields? = none) ∨
          ∃ inner, child = .mapping inner ∧ IsLeafPath level inner below := by
      -- An empty mapping would be a leaf although it is a mapping; in normal form there is none.
      by_cases plain : child.fields? = none
      · have noMapping (inner : Record) : child ≠ .mapping inner := by
          rintro rfl
          cases plain
        rw [mem_leavesUnder_of_plain plain]
        simp [plain, noMapping]
      · obtain ⟨fields, rfl⟩ : ∃ fields, child = .mapping fields := by
          cases child with
          | mapping fields => exact ⟨fields, rfl⟩
          | _ => exact absurd rfl plain
        cases normal with
        | leaf leaf => cases leaf
        | mapping some distinct each =>
          rw [mem_leavesUnder_mapping some, ih distinct each]
          simp [Value.fields?]
    cases path with
    | nil => exact ⟨fun h => absurd rfl (ne_nil_of_mem_leaves h), fun leaf => absurd rfl leaf.some⟩
    | cons key below =>
      rw [mem_leaves_succ_iff, isLeafPath_cons_iff]
      constructor
      · rintro ⟨_, child, _, ⟨⟩, mem, h⟩
        exact ⟨child, Dictionary.get?_eq_of_mem distinct mem, (under (each _ mem) below).mp h⟩
      · rintro ⟨child, found, h⟩
        have mem := Dictionary.mem_of_get? found
        exact ⟨key, child, below, rfl, mem, (under (each _ mem) below).mpr h⟩

/-- The text of an entry belongs to the first leaf path of its name. -/
theorem get?_ofRecords (records : List Record) (name : String) :
    Dictionary.get? (ofRecords records) name =
      ((leaves maxDepth [] (Example.ofRecords records)).find? fun path => enumName path = name).map
        (".".intercalate ·) := by
  rw [ofRecords, Dictionary.get?_foldl_putNew]
  exact Option.none_or

theorem nodup_keys_ofRecords (records : List Record) :
    (Dictionary.keys (ofRecords records)).Nodup :=
  Dictionary.nodup_keys_foldl_putNew _ _ _ List.nodup_nil

/-- A path has a name, whether it is the first one of this name or not. -/
theorem mem_keys_ofRecords {records : List Record} {name : String} :
    name ∈ Dictionary.keys (ofRecords records) ↔
      ∃ path ∈ leaves maxDepth [] (Example.ofRecords records), enumName path = name := by
  rw [← not_iff_not, ← Dictionary.get?_eq_none_iff, get?_ofRecords, Option.map_eq_none_iff,
    List.find?_eq_none]
  simp

end ContentSchema.SortFields
