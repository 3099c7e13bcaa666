import ContentSchema.Proofs.ExampleShapes
import ContentSchema.Proofs.FilterPositions

/-! The filters of a record type key by key. Each key has the filter that is built for it in its
turn; the sort input comes last, and takes the place of the filter of a key that is called like
it. -/
namespace ContentSchema
namespace FilterFields

/-- A key that filter inference comes to, with its example and the names given away before. -/
structure Turn where
  key : String
  value : Value
  namer : Namer

section
variable (path stem : String)

/-- The filter that is built for the key, if any. -/
def Turn.filter (t : Turn) : Option FilterField :=
  (ofValue (path ++ "." ++ t.key) (stemBelow stem t.key) t.value t.namer).1

/-- The keys of a mapping, one after the other. -/
def turns : Record → Namer → List Turn
  | [], _ => []
  | (key, v) :: rest, n =>
    ⟨key, v, n⟩ :: turns rest (ofValue (path ++ "." ++ key) (stemBelow stem key) v n).2

theorem keys_turns (fields : Record) (n : Namer) :
    (turns path stem fields n).map Turn.key = Dictionary.keys fields := by
  induction fields generalizing n with
  | nil => rfl
  | cons entry rest ih => exact congrArg (entry.1 :: ·) (ih _)

/-- Filters are found for keys that are there, in their order. -/
theorem sublist_keys_ofFields (fields : Record) (n : Namer) :
    (Dictionary.keys (ofFields path stem fields n).1).Sublist (Dictionary.keys fields) := by
  induction fields generalizing n with
  | nil => exact List.Sublist.slnil
  | cons entry rest ih =>
    obtain ⟨key, v⟩ := entry
    rw [ofFields_cons]
    rcases ofValue (path ++ "." ++ key) (stemBelow stem key) v n with ⟨_ | f, between⟩
    · exact (ih between).cons key
    · exact (ih between).cons_cons key

end

section
variable {path stem : String}

/-- Under each key stands what is found for it in its turn. -/
theorem get?_ofFields {fields : Record} (distinct : (Dictionary.keys fields).Nodup) {n : Namer}
    {t : Turn} (h : t ∈ turns path stem fields n) :
    Dictionary.get? (ofFields path stem fields n).1 t.key = t.filter path stem := by
  induction fields generalizing n with
  | nil => cases h
  | cons entry rest ih =>
    obtain ⟨key, v⟩ := entry
    obtain ⟨new, others⟩ := List.nodup_cons.mp distinct
    have absent (between : Namer) :
        Dictionary.get? (ofFields path stem rest between).1 key = none :=
      Dictionary.get?_eq_none_iff.mpr fun hkey =>
        new ((sublist_keys_ofFields path stem rest between).subset hkey)
    rw [ofFields_cons]
    rcases List.mem_cons.mp h with rfl | later
    · rw [Turn.filter]
      rcases ofValue (path ++ "." ++ key) (stemBelow stem key) v n with ⟨_ | f, between⟩
      · exact absent between
      · simp [Dictionary.get?]
    · have other : key ≠ t.key := by
        rintro rfl
        have here := List.mem_map_of_mem (f := Turn.key) later
        rw [keys_turns] at here
        exact new here
      rw [← ih others later]
      rcases ofValue (path ++ "." ++ key) (stemBelow stem key) v n with ⟨_ | f, between⟩
      · rfl
      · simp [Dictionary.get?, other]

/-- A filter input with nothing to choose from, which a sort input always has. -/
private def IsFilter (f : FilterField) : Prop :=
  ∃ name fields, f = input name fields ∧ ∀ key g enumName values,
    Dictionary.get? fields key = some g → g.type ≠ .named (.enum enumName values)

private theorem isFilter_of_plain {name : String} (kind : Kind) {more : Dictionary FilterField}
    (lists : ∀ key g, (key, g) ∈ more → ∃ t, g.type = .list t) :
    IsFilter (input name (operators kind ++ more)) := by
  refine ⟨_, _, rfl, fun key g enumName values found choice => ?_⟩
  rcases List.mem_append.mp (Dictionary.mem_of_get? found) with hmem | hmem
  · obtain ⟨s, rfl⟩ := eq_scalar_of_mem_operators hmem
    cases choice
  · obtain ⟨t, ht⟩ := lists key g hmem
    cases ht.symm.trans choice

private theorem run_isFilter :
    (∀ path stem v n, ∀ f, (ofValue path stem v n).1 = some f → IsFilter f) ∧
      ∀ path stem fields n, ∀ key f, (key, f) ∈ (ofFields path stem fields n).1 → IsFilter f := by
  have among (t : LinkedType) : ∀ key g, (key, g) ∈ [("in", plain (.list t))] →
      ∃ t, g.type = .list t := by
    intro key g hmem
    cases List.mem_singleton.mp hmem
    exact ⟨t, rfl⟩
  refine run_induction (P := fun _ _ _ _ found _ => ∀ f, found = some f → IsFilter f)
    (Q := fun _ _ _ _ found _ => ∀ key f, (key, f) ∈ found → IsFilter f)
    ?scalars ?containers ?others ?empty ?single ?unknown ?noField ?object ?nil ?skipped ?cons
  case scalars =>
    rintro path stem w head rest s n _ _ f ⟨⟩
    exact isFilter_of_plain _ (among _)
  case containers =>
    intro path stem w head rest n found after _ _ _ f hf
    obtain ⟨inner, _, rfl⟩ := Option.map_eq_some_iff.mp hf
    exact isFilter_of_plain .null (among _)
  case others => exact fun _ _ _ _ _ _ _ _ _ => nofun
  case empty => exact fun _ _ _ _ _ => nofun
  case single =>
    rintro path stem w s n _ _ _ f ⟨⟩
    rw [← List.append_nil (operators _)]
    exact isFilter_of_plain _ nofun
  case unknown => exact fun _ _ _ _ _ _ _ => nofun
  case noField => exact fun _ _ _ _ _ _ => nofun
  case object =>
    rintro path stem fields n found after ih _ f ⟨⟩
    refine ⟨_, _, rfl, fun key g enumName values entry choice => ?_⟩
    obtain ⟨_, _, rfl, _⟩ := ih key g (Dictionary.mem_of_get? entry)
    cases choice
  case nil => exact fun _ _ _ _ _ => nofun
  case skipped => exact fun _ _ _ _ _ _ _ _ _ _ ih => ih
  case cons =>
    intro path stem key v rest n f between found after ihv ih k g hmem
    rcases List.mem_cons.mp hmem with heq | hmem
    · cases heq
      exact ihv f rfl
    · exact ih k g hmem

/-- No filter is a sort input. -/
theorem Turn.filter_ne_sortField {t : Turn} {f sort : FilterField} {records : List Record}
    {typeName : String} (own : t.filter path stem = some f)
    (sorted : sortField records typeName = some sort) : f ≠ sort := by
  rintro rfl
  obtain ⟨name, fields, rfl, noEnum⟩ := run_isFilter.1 _ _ _ _ f own
  exact not_filterAt_sortField sorted (.here noEnum)

end

/-- What is found for each key stands under it, nothing stands under a key for which nothing is
found, and the sort input stands under its own name. -/
structure Complete (path stem : String) (seen : List Turn) (sort : Option FilterField)
    (filters : Dictionary FilterField) : Prop where
  found : ∀ t ∈ seen, ∀ f, t.filter path stem = some f → Dictionary.get? filters t.key = some f
  absent : ∀ t ∈ seen, t.filter path stem = none → Dictionary.get? filters t.key = none ∨
    t.key = "sortBy" ∧ Dictionary.get? filters t.key = sort
  sorted : ∀ f, sort = some f → Dictionary.get? filters "sortBy" = some f

section
variable {path stem : String} {seen : List Turn} {found : Dictionary FilterField}

theorem complete_of_unsorted
    (each : ∀ t ∈ seen, Dictionary.get? found t.key = t.filter path stem) :
    Complete path stem seen none found where
  found t ht _ own := (each t ht).trans own
  absent t ht own := Or.inl ((each t ht).trans own)
  sorted := nofun

theorem complete_withSort_iff {sort : FilterField}
    (each : ∀ t ∈ seen, Dictionary.get? found t.key = t.filter path stem)
    (other : ∀ t ∈ seen, t.filter path stem ≠ some sort) :
    Complete path stem seen (some sort) (Dictionary.put found "sortBy" sort) ↔
      ∀ t ∈ seen, t.key = "sortBy" → t.filter path stem = none := by
  constructor
  · intro complete t ht called
    cases own : t.filter path stem with
    | none => rfl
    | some f =>
      have kept : Dictionary.get? (Dictionary.put found "sortBy" sort) t.key = some f :=
        complete.found t ht f own
      rw [called, complete.sorted sort rfl] at kept
      exact absurd (own.trans kept.symm) (other t ht)
  · intro free
    constructor
    case found =>
      intro t ht f own
      have called : ¬ "sortBy" = t.key := by
        intro called
        cases (free t ht called.symm).symm.trans own
      rw [Dictionary.get?_put, if_neg called, each t ht, own]
    case absent =>
      intro t ht own
      rw [Dictionary.get?_put]
      by_cases called : "sortBy" = t.key
      · rw [if_pos called]
        exact Or.inr ⟨called.symm, rfl⟩
      · rw [if_neg called, each t ht]
        exact Or.inl own
    case sorted =>
      rintro f ⟨⟩
      rw [Dictionary.get?_put, if_pos rfl]

end

/-- The filters of a record type are complete exactly when there is no sort input, or no filter is
found for a key that is called like it. The example, where one is given, has no key twice. -/
theorem complete_root_iff (b : Build) (records : List Record) (name : Option String)
    (given : Option Record) (path : Option String)
    (distinct : ∀ fields, given = some fields → (Dictionary.keys fields).Nodup) :
    let typeName := rootTypeName records name
    let start := path.getD typeName
    let seen := turns start typeName (filterable (given.getD (Example.ofRecords records)))
      b.pass.namer
    let sort := sortInput? records typeName
    ∃ filters,
      (b.filterFields (records.map Value.mapping) (.root name) given path).1 = .ok filters ∧
        (Complete start typeName seen sort filters ↔
          (sort ≠ none → ∀ t ∈ seen, t.key = "sortBy" → t.filter start typeName = none)) := by
  intro typeName start seen sort
  have apart : (Dictionary.keys (filterable (given.getD (Example.ofRecords records)))).Nodup := by
    refine List.Nodup.sublist (List.filter_sublist.map _) ?_
    cases given with
    | none => exact (Example.keysDistinct_ofRecords records).own
    | some fields => exact distinct fields rfl
  have each (t : Turn) (ht : t ∈ seen) := get?_ofFields apart ht
  rw [b.filterFields_root]
  refine ⟨_, rfl, ?_⟩
  cases hsort : sortInput? records typeName with
  | none =>
    have none : sort = none := hsort
    simp only [none, withSortInput]
    exact ⟨fun _ absent => absurd rfl absent, fun _ => complete_of_unsorted each⟩
  | some sorting =>
    have some : sort = some sorting := hsort
    have other (t : Turn) (_ : t ∈ seen) : t.filter start typeName ≠ .some sorting :=
      fun own => absurd rfl (Turn.filter_ne_sortField own (sortField_of_sortInput? hsort))
    simp only [some, withSortInput]
    rw [complete_withSort_iff each other]
    exact ⟨fun free _ => free, fun free => free (by simp)⟩

end FilterFields

private def unsortable : Record := [("title", .text "On tags"), ("sortBy", .bytes [1, 2])]

/-- There is no filter for bytes, so that the sort input takes nothing's place. -/
theorem complete_root_bytes :
    (∀ fields, some unsortable = some fields → (Dictionary.keys fields).Nodup) ∧
      ∃ filters, ((Build.start .empty .empty ⟨⟨2020, 1, 10⟩, 0, 0, 0, 0, 0⟩).filterFields
          ([[("type", .text "Post")]].map Value.mapping) (.root none) (some unsortable) none).1 =
          .ok filters ∧
        FilterFields.Complete "Post" "Post" (FilterFields.turns "Post" "Post" unsortable .empty)
          (FilterFields.sortInput? [[("type", .text "Post")]] "Post") filters := by
  have distinct : ∀ fields, some unsortable = some fields → (Dictionary.keys fields).Nodup := by
    rintro fields ⟨⟩
    decide
  refine ⟨distinct, ?_⟩
  obtain ⟨filters, run, complete⟩ := FilterFields.complete_root_iff
    (Build.start .empty .empty ⟨⟨2020, 1, 10⟩, 0, 0, 0, 0, 0⟩) [[("type", .text "Post")]] none
    (some unsortable) none distinct
  refine ⟨filters, run, complete.mpr fun _ t ht called => ?_⟩
  rcases List.mem_pair.mp ht with rfl | rfl
  · exact absurd called (by decide)
  · rfl

private def commented : Record := [("type", .text "Post"), ("sortBy", .text "date")]

/-- A post that says how to sort its comments. A filter is built for the key, and the sort input
takes its place. -/
theorem sortBy_filter_lost :
    let b := Build.start .empty .empty ⟨⟨2020, 1, 10⟩, 0, 0, 0, 0, 0⟩
    ∃ t ∈ FilterFields.turns "Post" "Post" commented b.pass.namer, t.key = "sortBy" ∧
      t.filter "Post" "Post" =
        some (FilterFields.input "PostSortByQueryString" (FilterFields.operators .text)) ∧
      ∃ filters fields,
        (b.filterFields ([commented].map Value.mapping) (.root none) none none).1 = .ok filters ∧
          Dictionary.get? filters t.key = some (FilterFields.input "postSortBy" fields) := by
  intro b
  have own : Example.ofRecords [commented] = commented := by
    refine Example.ofRecords_singleton (by decide) ?_
    simp only [commented, List.forall_mem_cons]
    exact ⟨Example.merge_leaf rfl _, Example.merge_leaf rfl _, nofun⟩
  have leaves : (SortFields.ofRecords [commented]).isEmpty = false := by
    rw [SortFields.ofRecords, own]
    decide +kernel
  obtain ⟨fields, sort⟩ := FilterFields.exists_sortField "Post" leaves
  obtain ⟨t, ht, called, name, built, rfl⟩ :
      ∃ t ∈ FilterFields.turns "Post" "Post" commented b.pass.namer, t.key = "sortBy" ∧
        ∃ name, t.filter "Post" "Post" =
            some (FilterFields.input name (FilterFields.operators .text)) ∧
          name = "PostSortByQueryString" :=
    ⟨_, List.mem_cons_of_mem _ List.mem_cons_self, rfl, _, rfl, by decide +kernel⟩
  refine ⟨t, ht, called, built, _, fields,
    congrArg Prod.fst (b.filterFields_root _ _ _ _), ?_⟩
  have named : FilterFields.rootTypeName [commented] none = "Post" := rfl
  have small : Text.smallFirst "Post" ++ "SortBy" = "postSortBy" := by decide
  rw [named, FilterFields.sortInput?_of_named _ rfl, sort, small, FilterFields.withSortInput,
    called, Dictionary.get?_put, if_pos rfl]

end ContentSchema
