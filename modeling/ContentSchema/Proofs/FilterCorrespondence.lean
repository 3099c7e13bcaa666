import ContentSchema.Build
import ContentSchema.Proofs.DictionaryEntries
import ContentSchema.Proofs.FieldPath
import ContentSchema.Proofs.FilterRun
import ContentSchema.Proofs.OutputRun
import Mathlib.Data.List.Forall2

/-! Output types and filter types of one value mirror each other when nothing in the value is a
link. -/
namespace ContentSchema

/-- The filter type that goes with an output type. Scalars are compared as they are; a list is
searched for members; objects are compared field by field. -/
inductive FilteredBy : LinkedType → LinkedType → Prop where
  | scalar {s : Scalar} {name : String} {filters : Dictionary FilterField}
      (eq : Dictionary.get? filters "eq" = some (FilterFields.plain (.scalar s)))
      (ne : Dictionary.get? filters "ne" = some (FilterFields.plain (.scalar s))) :
      FilteredBy (.scalar s) (.named (.input name filters))
  | scalars {s : Scalar} {name : String} {filters : Dictionary FilterField}
      (eq : Dictionary.get? filters "eq" = some (FilterFields.plain (.scalar s)))
      (ne : Dictionary.get? filters "ne" = some (FilterFields.plain (.scalar s)))
      (among : Dictionary.get? filters "in" = some (FilterFields.plain (.list (.scalar s)))) :
      FilteredBy (.list (.scalar s)) (.named (.input name filters))
  | containers {t u : LinkedType} {name : String} {filters : Dictionary FilterField}
      (container : ∀ s, t ≠ .scalar s)
      (among : Dictionary.get? filters "in" = some (FilterFields.plain (.list u)))
      (member : FilteredBy t u) : FilteredBy (.list t) (.named (.input name filters))
  | object {name filterName : String} {fields : Dictionary OutputField}
      {filters : Dictionary FilterField}
      (keys : Dictionary.keys fields = Dictionary.keys filters)
      (each : List.Forall₂ (fun f g => FilteredBy f.2.type g.2.type) fields filters) :
      FilteredBy (.named (.object name fields)) (.named (.input filterName filters))

namespace Value

/-- No key anywhere inside is a link key. -/
def NoLinkKey (v : Value) : Prop :=
  ∀ path fields key, v.Holds path (.mapping fields) → key ∈ Dictionary.keys fields →
    LinkKey.isLink key = false

/-- Every text anywhere inside is found to be no file path. -/
def NoFilePath (convention : MediaType.Convention) (v : Value) : Prop :=
  ∀ path s, v.Holds path (.text s) → Location.isFilePath convention (.text s) = .ok false

end Value

/-- A value whose shape alone decides on its type. -/
structure ShapeOnly (convention : MediaType.Convention) (typeName : String) (v : Value) : Prop where
  distinct : v.KeysDistinct
  unlinked : v.NoLinkKey
  noFile : typeName = fileType ∨ v.NoFilePath convention

namespace ShapeOnly
variable {convention : MediaType.Convention} {typeName : String} {w child : Value}

theorem below {step : PathStep} (h : ShapeOnly convention typeName w)
    (down : ∀ path v, child.Holds path v → w.Holds (step :: path) v) :
    ShapeOnly convention typeName child where
  distinct path fields hv := h.distinct _ fields (down path _ hv)
  unlinked path fields key hv := h.unlinked _ fields key (down path _ hv)
  noFile := h.noFile.imp id fun noFile path s hv => noFile _ s (down path _ hv)

theorem member {items : List Value} (h : ShapeOnly convention typeName w)
    (sequence : w.items? = some items) (found : child ∈ items) :
    ShapeOnly convention typeName child :=
  h.below fun _ _ deeper => .element sequence found deeper

theorem keys_nodup {fields : List (String × Value)}
    (h : ShapeOnly convention typeName (.mapping fields)) :
    (Dictionary.keys fields).Nodup := h.distinct [] fields (.here _)

theorem field {fields : List (String × Value)} {key : String}
    (h : ShapeOnly convention typeName (.mapping fields)) (found : (key, child) ∈ fields) :
    ShapeOnly convention typeName child :=
  h.below fun _ _ deeper => .key (Dictionary.get?_eq_of_mem h.keys_nodup found) deeper

theorem tail {key : String} {fields : List (String × Value)}
    (h : ShapeOnly convention typeName (.mapping ((key, child) :: fields))) :
    ShapeOnly convention typeName (.mapping fields) := by
  obtain ⟨new, others⟩ := List.nodup_cons.mp h.keys_nodup
  -- A proper path into the other fields is also one into all of them.
  have widen {name : String} {path : List PathStep} {v : Value}
      (hv : Value.Holds (.mapping fields) (.key name :: path) v) :
      Value.Holds (.mapping ((key, child) :: fields)) (.key name :: path) v := by
    cases hv with
    | key found deeper =>
      refine .key ?_ deeper
      have hne : key ≠ name := by
        rintro rfl
        rw [Dictionary.get?_eq_none_iff.mpr new] at found
        cases found
      rw [Dictionary.get?, if_neg hne, found]
  constructor
  case distinct =>
    intro path inner hv
    cases hv with
    | here => exact others
    | key found deeper => exact h.distinct _ inner (widen (.key found deeper))
    | element sequence => cases sequence
  case unlinked =>
    intro path inner name hv hname
    cases hv with
    | here => exact h.unlinked [] _ name (.here _) (List.mem_cons_of_mem _ hname)
    | key found deeper => exact h.unlinked _ inner name (widen (.key found deeper)) hname
    | element sequence => cases sequence
  case noFile =>
    refine h.noFile.imp id fun noFile path s hv => ?_
    cases hv with
    | key found deeper => exact noFile _ s (widen (.key found deeper))
    | element sequence => cases sequence

theorem linkOf?_eq_none {site : Site} {fields : List (String × Value)} {selector key : String}
    (h : ShapeOnly site.convention typeName (.mapping fields))
    (unconfigured : site.config.mapping = [])
    (found : (key, child) ∈ fields) :
    OutputFields.linkOf? site typeName selector key child = none := by
  have plainKey : LinkKey.isLink key = false :=
    h.unlinked [] fields key (.here _) (List.mem_map.mpr ⟨_, found, rfl⟩)
  have choice (qualified : String) :
      Strategy.choose site.convention site.config typeName qualified key child = .ok .byShape := by
    unfold Strategy.choose
    rw [unconfigured, Dictionary.get?, plainKey]
    simp only [Bool.false_eq_true, if_false]
    rcases h.noFile with hfile | noFile
    · rw [hfile]
      rfl
    · have refused : Location.isFilePath site.convention child = .ok false := by
        cases hc : child with
        | text s =>
          subst hc
          exact noFile [.key key] s
            (.key (Dictionary.get?_eq_of_mem h.keys_nodup found) (.here _))
        | _ => rfl
      rw [refused]
      split <;> rfl
  exact OutputFields.linkOf?_eq_none_iff.mpr (choice _)

end ShapeOnly

section
open FilterFields (kindOf get?_operators)

theorem scalarField?_type (fieldName : String) (v : Value) :
    (OutputFields.scalarField? fieldName v).map Field.type =
      (Scalar.ofKind? (kindOf v)).map SchemaType.scalar := by
  unfold OutputFields.scalarField? kindOf
  cases v with
  | text s =>
    simp only [Value.kind, Bool.true_and, Bool.false_and, Bool.false_eq_true, if_false]
    cases Calendar.isIsoDate s <;> rfl
  | float x =>
    simp only [Value.kind]
    cases x.isInteger <;> rfl
  | _ => rfl

theorem kindOf_sequence {w : Value} {items : List Value} (h : w.items? = some items) :
    kindOf w = .list := by
  cases w with
  | list _ => rfl
  | tuple _ => rfl
  | _ => cases h

private theorem single_of_kindOf {w : Value} (h : ¬ (kindOf w = .list ∨ kindOf w = .object)) :
    w.items? = none ∧ w.fields? = none := by
  cases w with
  | list _ => exact absurd (Or.inl rfl) h
  | tuple _ => exact absurd (Or.inl rfl) h
  | mapping _ => exact absurd (Or.inr rfl) h
  | _ => exact ⟨rfl, rfl⟩

/-- An output field and a filter of one value: neither, or both and of matching types. -/
abbrev Mirrored (found : Option OutputField) (filter : Option FilterField) : Prop :=
  Option.Rel (fun f g => FilteredBy f.type g.type) found filter

/-- What is found for a value. Only single values are scalars, which decides on the filters of
lists. -/
private structure ValueMirrored (v : Value) (found : Option OutputField) : Prop where
  ofScalar : ∀ s, Scalar.ofKind? (kindOf v) = some s → ∃ f, found = some f ∧ f.type = .scalar s
  ofOther : Scalar.ofKind? (kindOf v) = none → ∀ f, found = some f → ∀ s, f.type ≠ .scalar s
  filter : ∀ path stem n, Mirrored found (FilterFields.ofValue path stem v n).1

/-- What is found for the fields of a mapping, under keys of the mapping. -/
private structure FieldsMirrored (fields : List (String × Value))
    (found : List (String × OutputField)) : Prop where
  among : (Dictionary.keys found).Sublist (Dictionary.keys fields)
  keys : ∀ path stem n,
    Dictionary.keys found = Dictionary.keys (FilterFields.ofFields path stem fields n).1
  each : ∀ path stem n, List.Forall₂ (fun f g => FilteredBy f.2.type g.2.type) found
    (FilterFields.ofFields path stem fields n).1

private theorem mirrored_single {w : Value} (noSequence : w.items? = none)
    (noMapping : w.fields? = none) (fieldName : String) :
    ValueMirrored w (OutputFields.scalarField? fieldName w) := by
  have type := scalarField?_type fieldName w
  cases hs : Scalar.ofKind? (kindOf w) with
  | none =>
    rw [hs, Option.map_none, Option.map_eq_none_iff] at type
    rw [type]
    refine ⟨fun s h => ?_, fun _ => nofun, fun path stem n => ?_⟩
    · cases hs.symm.trans h
    · rw [FilterFields.ofValue_single path stem n noSequence noMapping, hs]
      exact .none
  | some s =>
    rw [hs, Option.map_some, Option.map_eq_some_iff] at type
    obtain ⟨f, hf, htype⟩ := type
    rw [hf]
    obtain ⟨eq, ne, _⟩ := get?_operators hs
    refine ⟨fun t h => ?_, fun h => ?_, fun path stem n => ?_⟩
    · cases hs.symm.trans h
      exact ⟨f, rfl, htype⟩
    · cases hs.symm.trans h
    · rw [FilterFields.ofValue_single path stem n noSequence noMapping, hs]
      refine .some ?_
      rw [htype]
      exact .scalar eq ne

private theorem mirrored_sequence {w head : Value} {rest : List Value} {found : Option OutputField}
    (sequence : w.items? = some (head :: rest)) (h : ValueMirrored head found) :
    ValueMirrored w (found.map fun f => .plain (.list f.type)) := by
  have notScalar : Scalar.ofKind? (kindOf w) = none := by rw [kindOf_sequence sequence]; rfl
  constructor
  case ofScalar =>
    intro s hs
    cases notScalar.symm.trans hs
  case ofOther =>
    intro _ f hf s
    obtain ⟨_, _, rfl⟩ := Option.map_eq_some_iff.mp hf
    exact nofun
  case filter =>
    intro path stem n
    cases hs : Scalar.ofKind? (kindOf head) with
    | some s =>
      obtain ⟨f, rfl, htype⟩ := h.ofScalar s hs
      obtain ⟨eq, ne, noMember⟩ := get?_operators hs
      rw [FilterFields.ofValue_scalars path stem n sequence hs]
      refine .some ?_
      change FilteredBy (.list f.type) _
      rw [htype]
      apply FilteredBy.scalars
      · rw [Dictionary.get?_append, eq, Option.some_or]
      · rw [Dictionary.get?_append, ne, Option.some_or]
      · rw [Dictionary.get?_append, noMember, Option.none_or]
        rfl
    | none =>
      by_cases hk : kindOf head = .list ∨ kindOf head = .object
      · rw [FilterFields.ofValue_containers path stem n sequence hk]
        have inner := h.filter (path ++ "[]") stem (FilterFields.nameAt path stem "QueryList" n).2
        revert inner
        rcases (FilterFields.ofValue (path ++ "[]") stem head
          (FilterFields.nameAt path stem "QueryList" n).2).1 with _ | g
        · intro inner
          cases inner
          exact .none
        · intro inner
          cases inner with
          | some hfg => exact .some (.containers (h.ofOther hs _ rfl) rfl hfg)
      · rw [FilterFields.ofValue_others path stem n sequence hs hk]
        obtain ⟨noSequence, noMapping⟩ := single_of_kindOf hk
        have inner := h.filter path stem n
        rw [FilterFields.ofValue_single path stem n noSequence noMapping, hs] at inner
        cases inner
        exact .none

private theorem mirrored_empty {w : Value} (h : w.items? = some []) : ValueMirrored w none := by
  refine ⟨fun s hs => ?_, fun _ => nofun, fun path stem n => ?_⟩
  · rw [kindOf_sequence h] at hs
    cases hs
  · rw [FilterFields.ofValue_empty path stem n h]
    exact .none

private theorem mirrored_noField {fields : List (String × Value)} (h : FieldsMirrored fields []) :
    ValueMirrored (.mapping fields) none := by
  refine ⟨nofun, fun _ => nofun, fun path stem n => ?_⟩
  have inner := h.each path stem n
  rw [FilterFields.ofValue_mapping]
  revert inner
  rcases FilterFields.ofFields path stem fields n with ⟨filters, after⟩
  intro inner
  cases inner
  exact .none

private theorem mirrored_object {fields : List (String × Value)}
    {found : List (String × OutputField)} (distinct : (Dictionary.keys fields).Nodup)
    (h : FieldsMirrored fields found) (nonempty : found ≠ []) (name : String) :
    ValueMirrored (.mapping fields)
      (some (.plain (.named (.object name (Dictionary.ofList found))))) := by
  refine ⟨nofun, fun _ f hf s => ?_, fun path stem n => ?_⟩
  · cases hf
    exact nofun
  · have keys := h.keys path stem n
    have each := h.each path stem n
    rw [Dictionary.ofList_eq_self (h.among.nodup distinct), FilterFields.ofValue_mapping]
    revert keys each
    rcases FilterFields.ofFields path stem fields n with ⟨_ | ⟨filter, filters⟩, after⟩
    · intro _ each
      cases each
      exact absurd rfl nonempty
    · intro keys each
      exact .some (.object keys each)

private theorem mirrored_skipped {key : String} {v : Value} {rest : List (String × Value)}
    {found : List (String × OutputField)} (hv : ValueMirrored v none)
    (h : FieldsMirrored rest found) : FieldsMirrored ((key, v) :: rest) found := by
  have unfiltered (path stem : String) (n : Namer) :
      ∃ between, (FilterFields.ofFields path stem ((key, v) :: rest) n).1 =
        (FilterFields.ofFields path stem rest between).1 := by
    rw [FilterFields.ofFields_cons]
    have inner := hv.filter (path ++ "." ++ key) (FilterFields.stemBelow stem key) n
    revert inner
    rcases FilterFields.ofValue (path ++ "." ++ key) (FilterFields.stemBelow stem key) v n with
      ⟨filter, between⟩
    intro inner
    cases inner
    exact ⟨between, rfl⟩
  refine ⟨h.among.cons _, fun path stem n => ?_, fun path stem n => ?_⟩
  · obtain ⟨between, heq⟩ := unfiltered path stem n
    rw [heq]
    exact h.keys path stem between
  · obtain ⟨between, heq⟩ := unfiltered path stem n
    rw [heq]
    exact h.each path stem between

private theorem mirrored_typed {key : String} {v : Value} {rest : List (String × Value)}
    {f : OutputField} {found : List (String × OutputField)} (hv : ValueMirrored v (some f))
    (h : FieldsMirrored rest found) : FieldsMirrored ((key, v) :: rest) ((key, f) :: found) := by
  have filtered (path stem : String) (n : Namer) :
      ∃ g between, FilteredBy f.type g.type ∧
        (FilterFields.ofFields path stem ((key, v) :: rest) n).1 =
          (key, g) :: (FilterFields.ofFields path stem rest between).1 := by
    rw [FilterFields.ofFields_cons]
    have inner := hv.filter (path ++ "." ++ key) (FilterFields.stemBelow stem key) n
    revert inner
    rcases FilterFields.ofValue (path ++ "." ++ key) (FilterFields.stemBelow stem key) v n with
      ⟨filter, between⟩
    intro inner
    cases inner with
    | some hfg => exact ⟨_, between, hfg, rfl⟩
  refine ⟨h.among.cons_cons _, fun path stem n => ?_, fun path stem n => ?_⟩
  · obtain ⟨g, between, _, heq⟩ := filtered path stem n
    rw [heq]
    exact congrArg (key :: ·) (h.keys path stem between)
  · obtain ⟨g, between, hfg, heq⟩ := filtered path stem n
    rw [heq]
    exact .cons hfg (h.each path stem between)

/-- The two inferences mirror each other on every value that has no links. -/
theorem mirrored_ofValue {site : Site} (unconfigured : site.config.mapping = [])
    (typeName selector fieldName : String) (v : Value) (pass : Pass)
    (shape : ShapeOnly site.convention typeName v) (path stem : String) (n : Namer) :
    Mirrored (OutputFields.ofValue site typeName selector fieldName v pass).1
      (FilterFields.ofValue path stem v n).1 := by
  have run := OutputFields.run_induction site typeName
    (P := fun _ _ v _ found _ => ShapeOnly site.convention typeName v → ValueMirrored v found)
    (Q := fun _ fields _ found _ => ShapeOnly site.convention typeName (.mapping fields) →
      FieldsMirrored fields found)
    ?sequence ?empty ?single ?noField ?object ?nil ?failed ?linked ?untyped ?typed
  case sequence =>
    intro selector fieldName w head rest pass found after sequence ih h
    exact mirrored_sequence sequence (ih (h.member sequence List.mem_cons_self))
  case empty => exact fun _ _ w _ sequence _ => mirrored_empty sequence
  case single =>
    exact fun _ fieldName w _ noSequence noMapping _ =>
      mirrored_single noSequence noMapping fieldName
  case noField => exact fun _ _ fields _ _ ih h => mirrored_noField (ih h)
  case object =>
    exact fun _ _ fields _ found _ ih nonempty h => mirrored_object h.keys_nodup (ih h) nonempty _
  case nil => exact fun _ _ _ => ⟨.slnil, fun _ _ _ => rfl, fun _ _ _ => .nil⟩
  case failed =>
    intro selector key v rest pass e found after link _ h
    rw [h.linkOf?_eq_none unconfigured List.mem_cons_self] at link
    cases link
  case linked =>
    intro selector key v rest pass field found after link _ h
    rw [h.linkOf?_eq_none unconfigured List.mem_cons_self] at link
    cases link
  case untyped =>
    intro selector key v rest pass between found after _ ihv ih h
    exact mirrored_skipped (ihv (h.field List.mem_cons_self)) (ih h.tail)
  case typed =>
    intro selector key v rest pass f between found after _ ihv ih h
    exact mirrored_typed (ihv (h.field List.mem_cons_self)) (ih h.tail)
  exact (run.1 selector fieldName v pass shape).filter path stem n

end

/-- The inferred field of a value and its filter mirror each other, or neither exists, whenever
nothing inside the value is a link. -/
theorem outputField_mirrors_filterField (b c : Build) (records : List Record) (v : Value)
    (selector stem : String) (fieldName path : Option String)
    (unconfigured : b.site.config.mapping = []) (distinct : v.KeysDistinct)
    (unlinked : v.NoLinkKey)
    (noFile : typeNameOf (records.map Value.mapping) = .ok fileType ∨
      v.NoFilePath b.site.convention) :
    ∃ found, (b.outputField v selector (records.map Value.mapping) fieldName).1 = .ok found ∧
      Mirrored found (c.filterField v stem path).1 := by
  obtain ⟨typeName, htype⟩ := exists_typeNameOf records
  have shape : ShapeOnly b.site.convention typeName v :=
    ⟨distinct, unlinked, noFile.imp (fun h => Except.ok.inj (htype.symm.trans h)) id⟩
  have mirrored (fieldName : String) := mirrored_ofValue unconfigured typeName selector fieldName v
    b.pass shape (path.getD stem) stem c.pass.namer
  unfold Build.outputField
  cases leads : OutputFields.leadsToObject v with
  | true =>
    simp only [if_true, htype]
    exact ⟨_, rfl, mirrored _⟩
  | false =>
    simp only [Bool.false_eq_true, if_false]
    refine ⟨_, rfl, ?_⟩
    rw [OutputFields.ofValue_of_not_leadsToObject _ "" typeName _ _ leads]
    exact mirrored _

/-- A date, and rows of mappings, in records of a type of their own. -/
theorem outputField_mirrors_filterField_rows :
    ∃ found, ((Build.start .empty .empty ⟨⟨2020, 1, 10⟩, 0, 0, 0, 0, 0⟩).outputField
        (.mapping [("day", .text "2020-01-10"), ("rows", .list [.mapping [("n", .int 1)]])])
        "a" ([[("type", .text "T")]].map Value.mapping) none).1 = .ok found ∧
      Mirrored found ((Build.start .empty .empty ⟨⟨2020, 1, 10⟩, 0, 0, 0, 0, 0⟩).filterField
        (.mapping [("day", .text "2020-01-10"), ("rows", .list [.mapping [("n", .int 1)]])])
        "A" none).1 := by
  have inside {path : List PathStep} {v : Value}
      (h : Value.Holds (.mapping [("day", .text "2020-01-10"),
        ("rows", .list [.mapping [("n", .int 1)]])]) path v) :
      v = .mapping [("day", .text "2020-01-10"), ("rows", .list [.mapping [("n", .int 1)]])] ∨
        v = .text "2020-01-10" ∨ v = .list [.mapping [("n", .int 1)]] ∨
        v = .mapping [("n", .int 1)] ∨ v = .int 1 := by
    rcases h with _ | ⟨found, h⟩ | ⟨sequence, _, _⟩
    · exact Or.inl rfl
    · rcases List.mem_pair.mp (Dictionary.mem_of_get? found) with heq | heq
      · cases heq
        rcases h with _ | _ | ⟨sequence, _, _⟩
        · simp
        · cases sequence
      · cases heq
        rcases h with _ | _ | ⟨sequence, found, h⟩
        · simp
        · cases sequence
          cases List.mem_singleton.mp found
          rcases h with _ | ⟨found, h⟩ | ⟨sequence, _, _⟩
          · simp
          · cases List.mem_singleton.mp (Dictionary.mem_of_get? found)
            rcases h with _ | _ | ⟨sequence, _, _⟩
            · simp
            · cases sequence
          · cases sequence
    · cases sequence
  refine outputField_mirrors_filterField _ _ _ _ "a" "A" none none rfl ?distinct ?unlinked
    (Or.inr ?noFile)
  case distinct =>
    intro path fields h
    rcases inside h with heq | heq | heq | heq | heq <;> cases heq <;> decide
  case unlinked =>
    intro path fields key h hkey
    rcases inside h with heq | heq | heq | heq | heq <;> cases heq
    · rcases List.mem_pair.mp hkey with rfl | rfl <;> decide
    · cases List.mem_singleton.mp hkey
      decide
  case noFile =>
    intro path s h
    rcases inside h with heq | heq | heq | heq | heq <;> cases heq
    rfl

/-- A location that cannot be read is not taken for a file path, yet its field fails, and a mapping
of nothing else has no type. The filter knows of no locations. -/
theorem filterField_of_unreadable_location :
    (Build.start .empty .empty ⟨⟨2020, 1, 10⟩, 0, 0, 0, 0, 0⟩).site.config.mapping = [] ∧
      (Value.mapping [("x", .text "http://[abc/x.png")]).KeysDistinct ∧
      (Value.mapping [("x", .text "http://[abc/x.png")]).NoLinkKey ∧
      (∀ path s, (Value.mapping [("x", .text "http://[abc/x.png")]).Holds path (.text s) →
        Location.isFilePath .url (.text s) ≠ .ok true) ∧
      ((Build.start .empty .empty ⟨⟨2020, 1, 10⟩, 0, 0, 0, 0, 0⟩).outputField
        (.mapping [("x", .text "http://[abc/x.png")]) "a" [] none).1 = .ok none ∧
      ((Build.start .empty .empty ⟨⟨2020, 1, 10⟩, 0, 0, 0, 0, 0⟩).filterField
        (.mapping [("x", .text "http://[abc/x.png")]) "A" none).1 =
          some (FilterFields.input "AInputObject"
            [("x", FilterFields.input "AXQueryString" (FilterFields.operators .text))]) := by
  have inside {path : List PathStep} {v : Value}
      (h : Value.Holds (.mapping [("x", .text "http://[abc/x.png")]) path v) :
      v = .mapping [("x", .text "http://[abc/x.png")] ∨ v = .text "http://[abc/x.png" := by
    rcases h with _ | ⟨found, h⟩ | ⟨sequence, _, _⟩
    · exact Or.inl rfl
    · cases List.mem_singleton.mp (Dictionary.mem_of_get? found)
      rcases h with _ | _ | ⟨sequence, _, _⟩
      · exact Or.inr rfl
      · cases sequence
    · cases sequence
  refine ⟨rfl, ?distinct, ?unlinked, ?noFile, rfl, rfl⟩
  case distinct =>
    intro path fields h
    rcases inside h with heq | heq <;> cases heq
    decide
  case unlinked =>
    intro path fields key h hkey
    rcases inside h with heq | heq <;> cases heq
    cases List.mem_singleton.mp hkey
    decide
  case noFile =>
    intro path s h
    rcases inside h with heq | heq <;> cases heq
    exact nofun

end ContentSchema
