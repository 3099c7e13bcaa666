import ContentSchema.FilterFields
import ContentSchema.Proofs.BuildPass

/-! Filter inference over records. It is one run over the keys of their example, and the sort input
of a record type after it. -/
namespace ContentSchema
namespace FilterFields

/-- The name of the type that is filtered at a root. -/
def rootTypeName (records : List Record) (given : Option String) : String :=
  (given.filter fun name => !name.isEmpty).getD (Record.sharedTypeName records)

theorem rootName_mapping (records : List Record) (given : Option String) :
    rootName (records.map Value.mapping) given = .ok (rootTypeName records given) := by
  cases given with
  | none => exact typeNameOf_mapping records
  | some name =>
    by_cases h : name.isEmpty = true
    · simp [rootName, rootTypeName, Option.filter, h, typeNameOf_mapping]
    · simp [rootName, rootTypeName, Option.filter, h]

/-- The sort input that goes with the filters of a type. A type without a name has none. -/
def sortInput? (records : List Record) (typeName : String) : Option FilterField :=
  if typeName.isEmpty then none else sortField records typeName

theorem sortField_of_sortInput? {records : List Record} {typeName : String} {sort : FilterField}
    (h : sortInput? records typeName = some sort) : sortField records typeName = some sort := by
  unfold sortInput? at h
  split at h
  · cases h
  · exact h

theorem sortInput?_of_named (records : List Record) {typeName : String}
    (named : typeName.isEmpty = false) : sortInput? records typeName = sortField records typeName :=
  if_neg (Bool.eq_false_iff.mp named)

/-- Records with anything to sort by have a sort input. -/
theorem exists_sortField {records : List Record} (typeName : String)
    (sortable : (SortFields.ofRecords records).isEmpty = false) :
    ∃ fields, sortField records typeName =
      some (input (Text.smallFirst typeName ++ "SortBy") fields) := by
  simp only [sortField, sortable, Bool.false_eq_true, if_false]
  exact ⟨_, rfl⟩

/-- Filters with the sort input after them. -/
def withSortInput (found : Dictionary FilterField) : Option FilterField → Dictionary FilterField
  | some sort => Dictionary.put found "sortBy" sort
  | none => found

theorem withSort_mapping (records : List Record) (typeName : String)
    (found : Dictionary FilterField) :
    withSort (records.map Value.mapping) typeName found =
      .ok (withSortInput found (sortInput? records typeName)) := by
  simp only [withSort, sortInput?, Record.listOf_mapping]
  by_cases h : typeName.isEmpty = true
  · simp only [h, if_true]
    rfl
  · simp only [h]
    cases sortField records typeName <;> rfl

/-- The part of an example that is filtered at a root. -/
def filterable (fields : Record) : Record := fields.filter fun (key, _) => !excluded.contains key

section
variable (records : List Record) (given : Option Record) (path : Option String) (n : Namer)

theorem ofEntries_nested (stem : String) :
    (ofEntries (records.map Value.mapping) (.nested stem) given path).run n =
      let run := ofFields (path.getD stem) stem (given.getD (Example.ofRecords records)) n
      (.ok run.1, run.2) := by
  unfold ofEntries
  rw [Example.ofEntries_mapping]
  rfl

theorem ofEntries_root (name : Option String) :
    (ofEntries (records.map Value.mapping) (.root name) given path).run n =
      let typeName := rootTypeName records name
      let run := ofFields (path.getD typeName) typeName
        (filterable (given.getD (Example.ofRecords records))) n
      (.ok (withSortInput run.1 (sortInput? records typeName)), run.2) := by
  have run : (ofEntries (records.map Value.mapping) (.root name) given path).run n =
      let typeName := rootTypeName records name
      let found := ofFields (path.getD typeName) typeName
        (filterable (given.getD (Example.ofRecords records))) n
      (withSort (records.map Value.mapping) typeName found.1, found.2) := by
    unfold ofEntries
    rw [Example.ofEntries_mapping]
    simp only [rootName_mapping]
    rfl
  rw [run]
  simp only [withSort_mapping]

end
end FilterFields

theorem Build.filterFields_root (b : Build) (records : List Record) (name : Option String)
    (given : Option Record) (path : Option String) :
    b.filterFields (records.map Value.mapping) (.root name) given path =
      let typeName := FilterFields.rootTypeName records name
      let run := FilterFields.ofFields (path.getD typeName) typeName
        (FilterFields.filterable (given.getD (Example.ofRecords records))) b.pass.namer
      (.ok (FilterFields.withSortInput run.1 (FilterFields.sortInput? records typeName)),
        b.setNamer run.2) := by
  rw [filterFields, FilterFields.ofEntries_root]

/-- What the names of filter inputs begin with. -/
def FilterFields.stemOf (entries : List Value) : Place → Except NotRecord String
  | .nested stem => .ok stem
  | .root name => rootName entries name

/-- Filter inference never fails over records. -/
theorem Build.exists_filterFields (b : Build) (records : List Record) (place : FilterFields.Place)
    (given : Option Record) (path : Option String) :
    ∃ stem filters, FilterFields.stemOf (records.map Value.mapping) place = .ok stem ∧
      (b.filterFields (records.map Value.mapping) place given path).1 = .ok filters := by
  cases place with
  | nested stem =>
    rw [filterFields, FilterFields.ofEntries_nested]
    exact ⟨stem, _, rfl, rfl⟩
  | root name =>
    rw [b.filterFields_root]
    exact ⟨_, _, FilterFields.rootName_mapping records name, rfl⟩

/-- The filters that are found are those of one run, with a sort input perhaps. -/
theorem Build.exists_run_of_filterFields {b : Build} {entries : List Value}
    {place : FilterFields.Place} {given : Option Record} {path : Option String}
    {filters : Dictionary FilterField}
    (h : (b.filterFields entries place given path).1 = .ok filters) :
    ∃ stem shown, FilterFields.stemOf entries place = .ok stem ∧
      let run := FilterFields.ofFields (path.getD stem) stem shown b.pass.namer
      (b.filterFields entries place given path).2 = b.setNamer run.2 ∧
      (filters = run.1 ∨ ∃ records sort, Record.listOf entries = .ok records ∧
        FilterFields.sortField records stem = some sort ∧
        filters = Dictionary.put run.1 "sortBy" sort) := by
  unfold filterFields FilterFields.ofEntries at h ⊢
  cases shown : Example.ofEntries entries given with
  | error e =>
    rw [shown] at h
    cases place <;> cases h
  | ok merged =>
    rw [shown] at h
    cases place with
    | nested stem =>
      cases h
      exact ⟨stem, merged, rfl, rfl, Or.inl rfl⟩
    | root name =>
      cases named : FilterFields.rootName entries name with
      | error e =>
        simp only [named] at h
        cases h
      | ok typeName =>
        simp only [named] at h ⊢
        refine ⟨typeName, FilterFields.filterable merged, named, rfl, ?_⟩
        have sorted : FilterFields.withSort entries typeName (FilterFields.ofFields
            (path.getD typeName) typeName (FilterFields.filterable merged) b.pass.namer).1 =
          .ok filters := h
        unfold FilterFields.withSort at sorted
        split at sorted
        · cases sorted
          exact Or.inl rfl
        · split at sorted
          · cases sorted
          · rename_i records listed
            cases found : FilterFields.sortField records typeName with
            | none =>
              rw [found] at sorted
              cases sorted
              exact Or.inl rfl
            | some sort =>
              rw [found] at sorted
              cases sorted
              exact Or.inr ⟨records, sort, listed, found, rfl⟩

end ContentSchema
