import ContentSchema.Proofs.GeneratedTypes
import ContentSchema.Proofs.LinkTypes
import ContentSchema.Proofs.ObjectHistory

/-! Inference never makes an empty type. Whatever it finds leads to types with a field or a value,
but for registered record types, which may be without fields. -/
namespace ContentSchema

/-- An object or an input without fields, or an enumeration without values. -/
def Definition.isEmpty {τ : Type} : Definition τ → Bool
  | object _ fields => fields.isEmpty
  | input _ fields => fields.isEmpty
  | enum _ values => values.isEmpty

namespace SchemaType
variable {κ : Type}

/-- The empty definitions that stand in a type are those that are allowed to. -/
def EmptyOnly (allowed : Definition (SchemaType κ) → Prop) (t : SchemaType κ) : Prop :=
  ∀ d, t.Contains d → d.isEmpty = true → allowed d

theorem contains_of_inner {t : SchemaType κ} {d : Definition (SchemaType κ)}
    (h : t.inner.Contains d) : t.Contains d := by
  induction t using inner.induct with
  | case1 item ih => exact .list (ih h)
  | case2 item ih => exact .nonNull (ih h)
  | case3 t noList noNull => rwa [inner.eq_3 t noList noNull] at h

end SchemaType

namespace Graph
variable {κ : Type} [DecidableEq κ] {g : Graph κ} {allowed : Definition (SchemaType κ) → Prop}

/-- The types that some types lead to: themselves, and those of the fields and arguments of the
definitions on the way. -/
inductive LeadsTo (g : Graph κ) (types : List (SchemaType κ)) : SchemaType κ → Prop where
  | here {t : SchemaType κ} (mem : t ∈ types) : LeadsTo g types t
  | child {t u : SchemaType κ} {d : Definition (SchemaType κ)} (above : LeadsTo g types u)
      (found : g.definition? u = some d) (mem : t ∈ d.children) : LeadsTo g types t

/-- Below the linked definitions there are no empty ones but those that are allowed. -/
def EmptyOnly (allowed : Definition (SchemaType κ) → Prop) (g : Graph κ) : Prop :=
  ∀ key d, g.get? key = some d → ∀ t ∈ d.children, t.EmptyOnly allowed

theorem emptyOnly_of_definition? (graph : g.EmptyOnly allowed) {t : SchemaType κ}
    (only : t.EmptyOnly allowed) {d : Definition (SchemaType κ)} (found : g.definition? t = some d) :
    ∀ u ∈ d.children, u.EmptyOnly allowed := by
  rw [definition?] at found
  cases inner : t.inner with
  | named e =>
    rw [inner] at found
    cases found
    intro u mem f within
    have below : t.inner.Contains f := by
      rw [inner]
      exact .child mem within
    exact only f (SchemaType.contains_of_inner below)
  | link key =>
    rw [inner] at found
    exact graph key d found
  | scalar s | list item | nonNull item =>
    rw [inner] at found
    cases found

theorem LeadsTo.emptyOnly (graph : g.EmptyOnly allowed) {types : List (SchemaType κ)}
    (only : ∀ t ∈ types, t.EmptyOnly allowed) {t : SchemaType κ} (h : g.LeadsTo types t) :
    t.EmptyOnly allowed := by
  induction h with
  | here mem => exact only _ mem
  | child _ found mem ih => exact emptyOnly_of_definition? graph ih found _ mem

end Graph

section
variable {allowed : Definition LinkedType → Prop}

/-- The empty definitions that stand in the type of a field or of an argument of it are allowed. -/
def Field.EmptyOnly (allowed : Definition LinkedType → Prop) (f : OutputField) : Prop :=
  ∀ d, f.Contains d → d.isEmpty = true → allowed d

theorem OutputFields.Made.isEmpty {n : Namer} {typeName selector : String}
    {d : Definition LinkedType} (h : Made n typeName selector d) : d.isEmpty = false := by
  obtain ⟨_, _, _, rfl, some, -⟩ := h
  exact List.isEmpty_eq_false_iff.mpr some

theorem FilterFields.Made.isEmpty {n : Namer} {path : String} {d : Definition LinkedType}
    (h : Made n path d) : d.isEmpty = false := by
  obtain ⟨_, _, _, _, rfl, some, -⟩ := h
  exact List.isEmpty_eq_false_iff.mpr some

/-- There is a sort input only where there is a path to sort by. -/
theorem FilterFields.not_isEmpty_sortField {records : List Record} {typeName : String}
    {sort : FilterField} (h : sortField records typeName = some sort) {d : Definition LinkedType}
    (within : sort.type.Contains d) : d.isEmpty = false := by
  obtain ⟨fields, some, contains⟩ := exists_contains_sortField h
  rcases (contains d).mp within with rfl | rfl | rfl
  · exact List.isEmpty_eq_false_iff.mpr some
  · rw [Definition.isEmpty, List.isEmpty_map]
    by_contra empty
    rw [sortField, if_pos (Bool.not_eq_false _ ▸ empty)] at h
    cases h
  · rfl

namespace Registry

/-- In the fields of the registered types nothing is empty but what is allowed to. -/
def EmptyOnly (allowed : Definition LinkedType → Prop) (r : Registry) : Prop :=
  ∀ name type, r.get? name = some type → ∀ key f, (key, f) ∈ type.fields → f.EmptyOnly allowed

theorem EmptyOnly.put {r : Registry} (h : r.EmptyOnly allowed) {name : String} {type : RecordType}
    (only : ∀ key f, (key, f) ∈ type.fields → f.EmptyOnly allowed) :
    (r.put name type).EmptyOnly allowed := by
  intro target found hget
  have hget : Dictionary.get? (Dictionary.put r.types name type) target = some found := hget
  rw [Dictionary.get?_put] at hget
  split at hget
  · cases hget
    exact only
  · exact h target found hget

/-- A type that is declared has no fields. -/
theorem EmptyOnly.declare {r : Registry} (h : r.EmptyOnly allowed) {name : String}
    {nodes : List Value} : (r.put name ⟨nodes, []⟩).EmptyOnly allowed :=
  h.put fun _ _ found => absurd found List.not_mem_nil

theorem EmptyOnly.graph {r : Registry} (h : r.EmptyOnly allowed) : r.graph.EmptyOnly allowed := by
  intro key d found t ht
  rw [graph_get?] at found
  obtain ⟨type, registered, rfl⟩ := Option.map_eq_some_iff.mp found
  obtain ⟨⟨key, f⟩, hmem, ht⟩ := List.mem_flatMap.mp ht
  exact fun e within => h _ _ registered key f hmem e ⟨t, ht, within⟩

/-- An empty definition that some types lead to is allowed, or it is a registered record type that is
met through a link. -/
def OnlyLinksEmpty (r : Registry) (allowed : Definition LinkedType → Prop)
    (types : List LinkedType) : Prop :=
  ∀ t d, r.graph.LeadsTo types t → r.graph.definition? t = some d → d.isEmpty = true →
    allowed d ∨ ∃ name type, t.inner = .link name ∧ r.get? name = some type ∧
      d = .object name type.fields

theorem EmptyOnly.onlyLinksEmpty {r : Registry} (h : r.EmptyOnly allowed) {types : List LinkedType}
    (only : ∀ t ∈ types, t.EmptyOnly allowed) : r.OnlyLinksEmpty allowed types := by
  intro t d leads found empty
  have only := leads.emptyOnly h.graph only
  rw [Graph.definition?] at found
  cases inner : t.inner with
  | named e =>
    rw [inner] at found
    cases found
    have within : t.inner.Contains d := by
      rw [inner]
      exact .here d
    exact Or.inl (only d (SchemaType.contains_of_inner within) empty)
  | link name =>
    rw [inner] at found
    simp only [graph_get?] at found
    obtain ⟨type, registered, rfl⟩ := Option.map_eq_some_iff.mp found
    exact Or.inr ⟨name, type, rfl, registered, rfl⟩
  | scalar s | list item | nonNull item =>
    rw [inner] at found
    cases found

end Registry

namespace Build
variable {b : Build}

theorem not_isEmpty_outputFields {entries : List Value} {selector : Option String}
    {given : Option Record} {fields : Dictionary OutputField}
    (h : (b.outputFields entries selector given).1 = .ok fields) {key : String} {f : OutputField}
    (found : (key, f) ∈ fields) {d : Definition LinkedType} (within : f.Contains d) :
    d.isEmpty = false := by
  obtain ⟨_, -, made⟩ := made_of_outputFields h found within
  exact made.isEmpty

theorem not_isEmpty_filterFields {entries : List Value} {place : FilterFields.Place}
    {given : Option Record} {path : Option String} {filters : Dictionary FilterField}
    (h : (b.filterFields entries place given path).1 = .ok filters) {key : String} {f : FilterField}
    (found : (key, f) ∈ filters) {d : Definition LinkedType} (within : f.type.Contains d) :
    d.isEmpty = false := by
  obtain ⟨_, -, made | ⟨_, -, -, sorted⟩⟩ := made_of_filterFields h found within
  · exact made.isEmpty
  · exact FilterFields.not_isEmpty_sortField sorted within

/-- What is done over a registry puts nothing empty into it but what is put in by hand. -/
theorem emptyOnly_act (only : b.site.registry.EmptyOnly allowed) {action : RegistryAction}
    (byHand : ∀ name key f, action = .addField name key f → f.EmptyOnly allowed) :
    (b.act action).site.registry.EmptyOnly allowed := by
  cases action with
  | declare name nodes =>
    rw [act, Registry.declare]
    split
    · rename_i type registry declared
      split at declared
      · split at declared
        · cases declared
          exact only
        · cases declared
      · cases declared
        exact only.declare
    · exact only
  | recordType entries =>
    rw [act, recordType]
    cases typeNameOf entries with
    | error e => exact only
    | ok name =>
      have declared : (b.declareType name entries).site.registry.EmptyOnly allowed := only.declare
      have same := (b.declareType name entries).site_outputFields entries none none
      simp only
      rcases called : (b.declareType name entries).outputFields entries none none with
        ⟨e | fields, after⟩
      · rw [called] at same
        rwa [← same] at declared
      · rw [called] at same
        rw [← same] at declared
        refine declared.put fun key f found d within empty => ?_
        rw [not_isEmpty_outputFields (congrArg Prod.fst called) found within] at empty
        cases empty
  | outputFields entries selector given =>
    rw [act, site_outputFields]
    exact only
  | next => exact only
  | addField name key f =>
    rw [act, addField]
    cases registered : b.site.registry.get? name with
    | none => exact only
    | some type =>
      simp only
      split
      · refine only.put fun k g hmem => ?_
        rcases Dictionary.mem_of_mem_put hmem with heq | hmem
        · cases heq
          exact byHand name key f rfl
        · exact only name type registered k g hmem
      · exact only
  | work context => exact only

theorem emptyOnly_run (only : b.site.registry.EmptyOnly allowed) {actions : List RegistryAction}
    (byHand : ∀ name key f, .addField name key f ∈ actions → f.EmptyOnly allowed) :
    (actions.foldl act b).site.registry.EmptyOnly allowed := by
  induction actions generalizing b with
  | nil => exact only
  | cons action rest ih =>
    have first : (b.act action).site.registry.EmptyOnly allowed :=
      emptyOnly_act only fun name key f same => byHand name key f (same ▸ List.mem_cons_self)
    exact ih first fun name key f hmem => byHand name key f (List.mem_cons_of_mem _ hmem)

end Build
end

/-- A definition that stands in a field which was put into a record type by hand. -/
def AddedByHand (actions : List RegistryAction) (d : Definition LinkedType) : Prop :=
  ∃ name key f, .addField name key f ∈ actions ∧ f.Contains d

/-- Over any registry that builds have come to, output inference and filter inference find fields
that lead to no empty type but registered record types and what was put into these by hand, now and
after anything else that is done. -/
theorem emptyType_registered (context : Build) (earlier later : List RegistryAction)
    (entries : List Value) (given : Option Record) :
    let b := earlier.foldl Build.act (context.setRegistry .empty)
    let byHand := AddedByHand (earlier ++ later)
    (∀ selector fields, (b.outputFields entries selector given).1 = .ok fields →
      let after := later.foldl Build.act (b.outputFields entries selector given).2
      after.site.registry.OnlyLinksEmpty byHand
        (fields.flatMap fun field => Definition.fieldTypes field.2)) ∧
    ∀ place path fields, (b.filterFields entries place given path).1 = .ok fields →
      let after := later.foldl Build.act (b.filterFields entries place given path).2
      after.site.registry.OnlyLinksEmpty byHand (fields.map fun field => field.2.type) := by
  intro b byHand
  have added {name key : String} {f : OutputField} (h : .addField name key f ∈ earlier ++ later) :
      f.EmptyOnly byHand := fun d within _ => ⟨name, key, f, h, within⟩
  have start : (context.setRegistry .empty).site.registry.EmptyOnly byHand := nofun
  have only : b.site.registry.EmptyOnly byHand := Build.emptyOnly_run start fun name key f hmem =>
    added (List.mem_append_left _ hmem)
  have onward {b : Build} (only : b.site.registry.EmptyOnly byHand) :
      (later.foldl Build.act b).site.registry.EmptyOnly byHand :=
    Build.emptyOnly_run only fun name key f hmem => added (List.mem_append_right _ hmem)
  constructor
  · intro selector fields found after
    have kept : (b.outputFields entries selector given).2.site.registry.EmptyOnly byHand := by
      rw [Build.site_outputFields]
      exact only
    refine (onward kept).onlyLinksEmpty fun t ht d within empty => ?_
    obtain ⟨⟨key, f⟩, hmem, ht⟩ := List.mem_flatMap.mp ht
    rw [Build.not_isEmpty_outputFields found hmem ⟨t, ht, within⟩] at empty
    cases empty
  · intro place path fields found after
    refine (onward (b := (b.filterFields entries place given path).2) only).onlyLinksEmpty
      fun t ht d within empty => ?_
    obtain ⟨⟨key, f⟩, hmem, rfl⟩ := List.mem_map.mp ht
    rw [Build.not_isEmpty_filterFields found hmem within] at empty
    cases empty

/-- A link to an author leads to a type that is declared and empty. Only the author, and a type
without values that was put into the posts by hand, can be empty. -/
theorem emptyType_registered_author :
    let rating : Definition LinkedType := .enum "Rating" []
    let earlier : List RegistryAction := [.declare "Author" [], .declare "Post" [],
      .addField "Post" "rating" (.plain (.named rating))]
    let context := Build.start .empty ⟨[("Post.author", "Author")]⟩ ⟨⟨2020, 1, 10⟩, 0, 0, 0, 0, 0⟩
    let b := earlier.foldl Build.act (context.setRegistry .empty)
    let author : OutputField := .link "Author" false (.mapping "author" "Author" false)
    (b.outputFields [.mapping [("type", .text "Post")]] none (some [("author", .text "a")])).1 =
        .ok [("author", author)] ∧
      b.site.registry.graph.definition? author.type = some (.object "Author" []) ∧
      b.site.registry.OnlyLinksEmpty (fun d => d = rating) [author.type] := by
  intro rating earlier context b author
  have found : (b.outputFields [.mapping [("type", .text "Post")]] none
      (some [("author", .text "a")])).1 = .ok [("author", author)] := rfl
  have sound := (emptyType_registered context earlier [] _ _).1 none _ found
  refine ⟨found, rfl, fun t d leads named empty => (sound t d leads named empty).imp_left ?_⟩
  rintro ⟨name, key, f, added, within⟩
  obtain ⟨rfl, rfl, rfl⟩ : name = "Post" ∧ key = "rating" ∧ f = .plain (.named rating) := by
    simpa [earlier] using added
  rw [Field.contains_plain_iff, SchemaType.contains_named_iff] at within
  exact within.resolve_right nofun

end ContentSchema
