import ContentSchema.Proofs.FilterPositions
import ContentSchema.Proofs.OutputPositions

/-! The definitions that stand in what inference finds. Each of them has a field or a value, and each
but those of a sort input has the name that is remembered for its place. -/
namespace ContentSchema

namespace SchemaType
variable {κ : Type}

/-- A definition that stands in a type, at any depth. What a link leads to does not. -/
inductive Contains : SchemaType κ → Definition (SchemaType κ) → Prop where
  | here (d : Definition (SchemaType κ)) : Contains (.named d) d
  | list {item : SchemaType κ} {d : Definition (SchemaType κ)} (inner : Contains item d) :
      Contains (.list item) d
  | nonNull {item : SchemaType κ} {d : Definition (SchemaType κ)} (inner : Contains item d) :
      Contains (.nonNull item) d
  | child {t : SchemaType κ} {d e : Definition (SchemaType κ)} (mem : t ∈ e.children)
      (below : Contains t d) : Contains (.named e) d

variable {d e : Definition (SchemaType κ)} {item : SchemaType κ}

theorem not_contains_scalar (s : Scalar) : ¬ (scalar s : SchemaType κ).Contains d := nofun

theorem not_contains_link (key : κ) : ¬ (link key).Contains d := nofun

theorem contains_list_iff : (list item).Contains d ↔ item.Contains d :=
  ⟨fun h => by cases h; assumption, .list⟩

theorem contains_nonNull_iff : (nonNull item).Contains d ↔ item.Contains d :=
  ⟨fun h => by cases h; assumption, .nonNull⟩

theorem contains_named_iff :
    (named e).Contains d ↔ d = e ∨ ∃ t ∈ e.children, t.Contains d := by
  constructor
  · intro h
    cases h with
    | here => exact Or.inl rfl
    | child mem below => exact Or.inr ⟨_, mem, below⟩
  · rintro (rfl | ⟨t, mem, below⟩)
    · exact .here d
    · exact .child mem below

end SchemaType

section
variable {d : Definition LinkedType}

/-- A definition that stands in the type of a field or of an argument of it. -/
def Field.Contains (f : OutputField) (d : Definition LinkedType) : Prop :=
  ∃ t ∈ Definition.fieldTypes f, t.Contains d

theorem Field.contains_plain_iff {t : LinkedType} :
    (OutputField.plain t).Contains d ↔ t.Contains d := by
  simp [Field.Contains, OutputField.plain, Definition.fieldTypes]

theorem Field.Contains.of_type {f : OutputField} (h : f.type.Contains d) : f.Contains d :=
  ⟨_, List.mem_cons_self, h⟩

theorem Field.not_contains_link (target : String) (isList : Bool) (resolver : Resolver) :
    ¬ (OutputField.link target isList resolver).Contains d := by
  rintro ⟨t, mem, within⟩
  cases List.mem_singleton.mp mem
  cases isList with
  | false => cases within
  | true =>
    cases within with
    | list inner => cases inner

theorem contains_object_iff {name : String} {fields : Dictionary OutputField} :
    (SchemaType.named (.object name fields)).Contains d ↔
      d = .object name fields ∨ ∃ key f, (key, f) ∈ fields ∧ f.Contains d := by
  rw [SchemaType.contains_named_iff]
  refine or_congr_right ?_
  simp only [Definition.children, List.mem_flatMap, Prod.exists, Field.Contains]
  constructor
  · rintro ⟨t, ⟨key, f, mem, ofField⟩, within⟩
    exact ⟨key, f, mem, t, ofField, within⟩
  · rintro ⟨key, f, mem, t, ofField, within⟩
    exact ⟨t, ⟨key, f, mem, ofField⟩, within⟩

theorem contains_input_iff {name : String} {fields : Dictionary FilterField} :
    (FilterFields.input name fields).type.Contains d ↔
      d = .input name fields ∨ ∃ key f, (key, f) ∈ fields ∧ f.type.Contains d := by
  rw [FilterFields.input, FilterFields.plain, SchemaType.contains_named_iff]
  refine or_congr_right ?_
  simp only [Definition.children, List.mem_map, Prod.exists]
  constructor
  · rintro ⟨t, ⟨key, f, mem, rfl⟩, within⟩
    exact ⟨key, f, mem, within⟩
  · rintro ⟨key, f, mem, within⟩
    exact ⟨f.type, ⟨key, f, mem, rfl⟩, within⟩

end

namespace OutputFields

/-- An object with fields, under the name that is remembered for a place below a selector. -/
def Made (n : Namer) (typeName selector : String) (d : Definition LinkedType) : Prop :=
  ∃ path name fields, d = .object name fields ∧ fields ≠ [] ∧
    n.answer? (typeName ++ "." ++ selectorAt selector path) = some name

theorem Made.mono {n later : Namer} {typeName selector : String} {d : Definition LinkedType}
    (h : Made n typeName selector d) (kept : n.Extends later) : Made later typeName selector d := by
  obtain ⟨path, name, fields, same, some, known⟩ := h
  exact ⟨path, name, fields, same, some, kept _ _ known⟩

/-- What the run over a value leaves behind. -/
private structure ValueMade (typeName selector : String) (pass : Pass)
    (found : Option OutputField) (after : Pass) : Prop where
  kept : pass.namer.Extends after.namer
  made : ∀ f, found = some f → ∀ d, f.Contains d → Made after.namer typeName selector d

/-- What the run over the fields of a mapping leaves behind. -/
private structure FieldsMade (typeName selector : String) (pass : Pass)
    (found : List (String × OutputField)) (after : Pass) : Prop where
  kept : pass.namer.Extends after.namer
  made : ∀ key f, (key, f) ∈ found → ∀ d, f.Contains d → Made after.namer typeName selector d

theorem not_contains_scalarField? {fieldName : String} {v : Value} {f : OutputField}
    (h : scalarField? fieldName v = some f) (d : Definition LinkedType) : ¬ f.Contains d := by
  rintro ⟨t, mem, within⟩
  unfold scalarField? at h
  split at h
  · cases h
    simp only [Definition.fieldTypes, dateArguments, List.map_cons, List.map_nil, List.mem_cons,
      List.not_mem_nil, or_false] at mem
    obtain rfl | rfl | rfl | rfl := mem <;> cases within
  · obtain ⟨s, _, rfl⟩ := Option.map_eq_some_iff.mp h
    cases List.mem_singleton.mp mem
    cases within

private theorem run_made (site : Site) (typeName : String) :
    (∀ selector fieldName v pass, ValueMade typeName selector pass
      (ofValue site typeName selector fieldName v pass).1
      (ofValue site typeName selector fieldName v pass).2) ∧
    ∀ selector fields pass, FieldsMade typeName selector pass
      (ofFields site typeName selector fields pass).1
      (ofFields site typeName selector fields pass).2 := by
  refine run_induction site typeName
    (P := fun selector _ _ pass found after => ValueMade typeName selector pass found after)
    (Q := fun selector _ pass found after => FieldsMade typeName selector pass found after)
    ?sequence ?empty ?single ?noField ?object ?nil ?failed ?linked ?untyped ?typed
  case sequence =>
    intro selector fieldName w head rest pass found after _ ih
    refine ⟨ih.kept, fun f hf d within => ?_⟩
    obtain ⟨inner, hinner, rfl⟩ := Option.map_eq_some_iff.mp hf
    rw [Field.contains_plain_iff, SchemaType.contains_list_iff] at within
    exact ih.made inner hinner d (.of_type within)
  case empty => exact fun _ _ _ pass _ => ⟨.refl _, nofun⟩
  case single =>
    exact fun _ _ _ pass _ _ =>
      ⟨.refl _, fun f hf d within => absurd within (not_contains_scalarField? hf d)⟩
  case noField => exact fun _ _ _ _ _ ih => ⟨ih.kept, nofun⟩
  case object =>
    intro selector fieldName fields pass found after ih some
    have grown := after.namer.extends_nameFor (typeName ++ "." ++ selector) none
    refine ⟨ih.kept.trans grown, fun f hf d within => ?_⟩
    cases hf
    rw [Field.contains_plain_iff, contains_object_iff] at within
    rcases within with rfl | ⟨key, f, hmem, within⟩
    · exact ⟨[], _, _, rfl, Dictionary.ofList_ne_nil some, after.namer.answer?_nameFor _ none⟩
    · exact (ih.made key f (Dictionary.mem_of_mem_ofList hmem) d within).mono grown
  case nil => exact fun _ pass => ⟨.refl _, nofun⟩
  case failed => exact fun _ _ _ _ _ _ _ _ _ ih => ⟨ih.kept, ih.made⟩
  case linked =>
    intro selector key v rest pass field found after link ih
    refine ⟨ih.kept, fun k f hmem d within => ?_⟩
    rcases List.mem_cons.mp hmem with heq | hmem
    · cases heq
      obtain ⟨target, isList, resolver, made⟩ := eq_link_of_linkOf? link
      obtain rfl : f = _ := made
      exact absurd within (Field.not_contains_link target isList resolver)
    · exact ih.made k f hmem d within
  case untyped =>
    intro selector key v rest pass between found after _ ihv ih
    exact ⟨ihv.kept.trans ih.kept, ih.made⟩
  case typed =>
    intro selector key v rest pass f between found after _ ihv ih
    refine ⟨ihv.kept.trans ih.kept, fun k g hmem d within => ?_⟩
    rcases List.mem_cons.mp hmem with heq | hmem
    · cases heq
      obtain ⟨path, name, fields, same, some, known⟩ := ihv.made f rfl d within
      exact ⟨.key key :: path, name, fields, same, some, ih.kept _ _ known⟩
    · exact ih.made k g hmem d within

/-- Every definition in the fields of a run is an object with fields. -/
theorem made_of_contains {site : Site} {typeName selector key : String}
    {fields : List (String × Value)} {pass : Pass} {f : OutputField} {d : Definition LinkedType}
    (found : (key, f) ∈ (ofFields site typeName selector fields pass).1) (within : f.Contains d) :
    Made (ofFields site typeName selector fields pass).2.namer typeName selector d :=
  ((run_made site typeName).2 selector fields pass).made key f found d within

end OutputFields

namespace FilterFields

/-- An input with fields, under the name that is remembered for a place below a path. -/
def Made (n : Namer) (path : String) (d : Definition LinkedType) : Prop :=
  ∃ steps ending name fields, d = .input name fields ∧ fields ≠ [] ∧
    n.answer? (pathAt path steps ++ ":" ++ ending) = some name

theorem Made.mono {n later : Namer} {path : String} {d : Definition LinkedType} (h : Made n path d)
    (kept : n.Extends later) : Made later path d := by
  obtain ⟨steps, ending, name, fields, same, some, known⟩ := h
  exact ⟨steps, ending, name, fields, same, some, kept _ _ known⟩

section
variable {n : Namer} {path stem ending : String} {d : Definition LinkedType}

theorem extends_nameAt (path stem ending : String) (n : Namer) :
    n.Extends (nameAt path stem ending n).2 :=
  (grows_nameAt path stem ending n).kept

theorem not_contains_operators {kind : Kind} {key : String} {f : FilterField}
    (h : (key, f) ∈ operators kind) : ¬ f.type.Contains d := by
  obtain ⟨s, rfl⟩ := eq_scalar_of_mem_operators h
  exact SchemaType.not_contains_scalar s

theorem operators_ne_nil {kind : Kind} {s : Scalar} (h : Scalar.ofKind? kind = some s) :
    operators kind ≠ [] := by
  intro none
  obtain ⟨equal, -⟩ := get?_operators h
  rw [none] at equal
  cases equal

/-- An input that is named for a path is made there, and so is what its fields hold. -/
theorem made_input {fields : Dictionary FilterField} (some : fields ≠ []) {later : Namer}
    (kept : (nameAt path stem ending n).2.Extends later)
    (each : ∀ key f, (key, f) ∈ fields → f.type.Contains d → Made later path d)
    (within : (input (nameAt path stem ending n).1 fields).type.Contains d) :
    Made later path d := by
  rcases contains_input_iff.mp within with rfl | ⟨key, f, hmem, within⟩
  · exact ⟨[], ending, _, fields, rfl, some, kept _ _ (answer?_nameAt path stem ending n)⟩
  · exact each key f hmem within

end

/-- What the run over a value leaves behind. -/
private structure FilterMade (path : String) (n : Namer) (found : Option FilterField)
    (after : Namer) : Prop where
  kept : n.Extends after
  made : ∀ f, found = some f → ∀ d, f.type.Contains d → Made after path d

/-- What the run over the fields of a mapping leaves behind. -/
private structure FiltersMade (path : String) (n : Namer) (found : Dictionary FilterField)
    (after : Namer) : Prop where
  kept : n.Extends after
  made : ∀ key f, (key, f) ∈ found → ∀ d, f.type.Contains d → Made after path d

private theorem FilterMade.none (path : String) (n : Namer) : FilterMade path n none n :=
  ⟨.refl n, nofun⟩

private theorem run_made :
    (∀ path stem v n, FilterMade path n (ofValue path stem v n).1 (ofValue path stem v n).2) ∧
      ∀ path stem fields n, FiltersMade path n (ofFields path stem fields n).1
        (ofFields path stem fields n).2 := by
  refine run_induction
    (P := fun path _ _ n found after => FilterMade path n found after)
    (Q := fun path _ _ n found after => FiltersMade path n found after)
    ?scalars ?containers ?others ?empty ?single ?unknown ?noField ?object ?nil ?skipped ?cons
  case scalars =>
    rintro path stem w head rest s n - hs
    refine ⟨extends_nameAt path stem "QueryList" n, ?_⟩
    rintro _ ⟨⟩ d within
    refine made_input (List.append_ne_nil_of_right_ne_nil _ (List.cons_ne_nil _ _)) (.refl _)
      (fun key f hmem inside => ?_) within
    rcases List.mem_append.mp hmem with hmem | hmem
    · exact absurd inside (not_contains_operators hmem)
    · cases List.mem_singleton.mp hmem
      rw [plain, SchemaType.contains_list_iff] at inside
      exact absurd inside (SchemaType.not_contains_scalar s)
  case containers =>
    rintro path stem w head rest n found after - - ih
    refine ⟨(extends_nameAt path stem "QueryList" n).trans ih.kept, fun f hf d within => ?_⟩
    obtain ⟨inner, hinner, rfl⟩ := Option.map_eq_some_iff.mp hf
    -- The list was named before the run over its member, which keeps the name.
    refine made_input (List.cons_ne_nil _ _) ih.kept (fun key f hmem inside => ?_) within
    cases List.mem_singleton.mp hmem
    rw [plain, SchemaType.contains_list_iff] at inside
    obtain ⟨steps, ending, name, fields, same, some, known⟩ := ih.made inner hinner d inside
    exact ⟨.element :: steps, ending, name, fields, same, some, known⟩
  case others => exact fun path _ _ _ _ n _ _ _ => .none path n
  case empty => exact fun path _ _ n _ => .none path n
  case single =>
    rintro path stem w s n - - hs
    refine ⟨extends_nameAt path stem (ending s) n, ?_⟩
    rintro _ ⟨⟩ d within
    exact made_input (operators_ne_nil hs) (.refl _)
      (fun key f hmem inside => absurd inside (not_contains_operators hmem)) within
  case unknown => exact fun path _ _ n _ _ _ => .none path n
  case noField => exact fun _ _ _ _ _ ih => ⟨ih.kept, nofun⟩
  case object =>
    intro path stem fields n found after ih some
    have grown := extends_nameAt path stem "InputObject" after
    refine ⟨ih.kept.trans grown, ?_⟩
    rintro _ ⟨⟩ d within
    exact made_input some (.refl _)
      (fun key f hmem inside => (ih.made key f hmem d inside).mono grown) within
  case nil => exact fun _ _ n => ⟨.refl n, nofun⟩
  case skipped =>
    intro path stem key v rest n between found after ihv ih
    exact ⟨ihv.kept.trans ih.kept, ih.made⟩
  case cons =>
    intro path stem key v rest n f between found after ihv ih
    refine ⟨ihv.kept.trans ih.kept, fun k g hmem d within => ?_⟩
    rcases List.mem_cons.mp hmem with heq | hmem
    · cases heq
      obtain ⟨steps, ending, name, fields, same, some, known⟩ := ihv.made f rfl d within
      exact ⟨.key key :: steps, ending, name, fields, same, some, ih.kept _ _ known⟩
    · exact ih.made k g hmem d within

/-- Every definition in the filters of a run is an input with fields. -/
theorem made_of_contains {path stem key : String} {fields : List (String × Value)} {n : Namer}
    {f : FilterField} {d : Definition LinkedType}
    (found : (key, f) ∈ (ofFields path stem fields n).1) (within : f.type.Contains d) :
    Made (ofFields path stem fields n).2 path d :=
  (run_made.2 path stem fields n).made key f found d within

/-- A sort input holds itself and two enumerations. -/
theorem exists_contains_sortField {records : List Record} {typeName : String} {sort : FilterField}
    (h : sortField records typeName = some sort) :
    ∃ fields, fields ≠ [] ∧ ∀ d, sort.type.Contains d ↔
      d = .input (Text.smallFirst typeName ++ "SortBy") fields ∨
      d = .enum (typeName ++ "SortByFieldsEnum")
        ((SortFields.ofRecords records).map fun entry => (entry.1, .text entry.2)) ∨
      d = .enum (Text.smallFirst typeName ++ "SortOrderValues")
        [("ASC", .text "asc"), ("DESC", .text "desc")] := by
  have enum (name : String) (values : List (String × Value)) (d : Definition LinkedType) :
      (SchemaType.named (.enum name values)).Contains d ↔ d = .enum name values := by
    rw [SchemaType.contains_named_iff, or_iff_left]
    exact nofun
  simp only [sortField] at h
  split at h
  · cases h
  · cases h
    refine ⟨_, ?_, fun d => contains_input_iff.trans (or_congr_right ?_)⟩
    · exact List.cons_ne_nil _ _
    simp only [List.mem_cons, List.not_mem_nil, or_false, Prod.mk.injEq, exists_and_left, or_and_right,
      exists_or, exists_eq_left, and_assoc, plain, SchemaType.contains_nonNull_iff,
      SchemaType.contains_list_iff, enum]

end FilterFields

namespace Build
variable {b : Build} {entries : List Value} {given : Option Record} {key : String}
  {d : Definition LinkedType}

theorem made_of_outputFields {selector : Option String} {fields : Dictionary OutputField}
    (h : (b.outputFields entries selector given).1 = .ok fields) {f : OutputField}
    (found : (key, f) ∈ fields) (within : f.Contains d) :
    ∃ typeName, typeNameOf entries = .ok typeName ∧
      OutputFields.Made (b.outputFields entries selector given).2.pass.namer typeName
        (selector.getD "") d := by
  obtain ⟨typeName, shown, typed, rfl, left⟩ := exists_run_of_outputFields h
  rw [left]
  exact ⟨typeName, typed,
    OutputFields.made_of_contains (Dictionary.mem_of_mem_ofList found) within⟩

/-- Besides the filters there may be one sort input. -/
theorem made_of_filterFields {place : FilterFields.Place} {path : Option String}
    {filters : Dictionary FilterField}
    (h : (b.filterFields entries place given path).1 = .ok filters) {f : FilterField}
    (found : (key, f) ∈ filters) (within : f.type.Contains d) :
    ∃ stem, FilterFields.stemOf entries place = .ok stem ∧
      (FilterFields.Made (b.filterFields entries place given path).2.pass.namer (path.getD stem) d ∨
        ∃ records, key = "sortBy" ∧ Record.listOf entries = .ok records ∧
          FilterFields.sortField records stem = some f) := by
  obtain ⟨stem, shown, stems, left, filters⟩ := exists_run_of_filterFields h
  rw [left]
  refine ⟨stem, stems, ?_⟩
  obtain rfl | ⟨records, sort, listed, sorted, rfl⟩ := filters
  · exact Or.inl (FilterFields.made_of_contains found within)
  · rcases Dictionary.mem_of_mem_put found with heq | found
    · cases heq
      exact Or.inr ⟨records, rfl, listed, sorted⟩
    · exact Or.inl (FilterFields.made_of_contains found within)

end Build
end ContentSchema
