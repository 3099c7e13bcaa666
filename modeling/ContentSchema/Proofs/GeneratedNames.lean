import ContentSchema.Proofs.ExampleShapes
import ContentSchema.Proofs.GeneratedTypes
import ContentSchema.Proofs.LegalNames
import ContentSchema.Proofs.NameRequests

/-! Which generated names are legal. The namer makes legal names only, but it repeats what was
reserved, and nobody makes legal what goes into the names of a sort input. -/
namespace ContentSchema

namespace Namer

/-- A selector is reserved as a name before anybody asks for it. -/
def ReservedFirst (requests : List Request) (selector : String) : Prop :=
  ∃ before rest, requests = before ++ .reserve selector :: rest ∧ ¬ Asked before selector

theorem reservedFirst_concat {requests : List Request} {r : Request} {selector : String} :
    ReservedFirst (requests ++ [r]) selector ↔
      ReservedFirst requests selector ∨ r = .reserve selector ∧ ¬ Asked requests selector := by
  constructor
  · rintro ⟨before, rest, parts, fresh⟩
    rcases List.eq_nil_or_concat rest with rfl | ⟨rest, last, rfl⟩
    · obtain ⟨rfl, heq⟩ := List.append_inj' parts rfl
      exact Or.inr ⟨List.singleton_inj.mp heq, fresh⟩
    · have parts : requests ++ [r] = (before ++ .reserve selector :: rest) ++ [last] := by
        simpa using parts
      exact Or.inl ⟨before, rest, List.append_inj_left' parts rfl, fresh⟩
  · rintro (⟨before, rest, rfl, fresh⟩ | ⟨rfl, fresh⟩)
    · exact ⟨before, rest ++ [r], by simp, fresh⟩
    · exact ⟨requests, [], rfl, fresh⟩

theorem reservedFirst_of_mem {requests : List Request} {selector : String}
    (reserved : .reserve selector ∈ requests) (fresh : ¬ Asked requests selector) :
    ReservedFirst requests selector := by
  obtain ⟨before, rest, rfl⟩ := List.append_of_mem reserved
  exact ⟨before, rest, rfl, fun asked => fresh (asked_append.mpr (Or.inl asked))⟩

theorem reservedFirst_append_iff {history asks : List Request} {selector : String}
    (asking : .reserve selector ∉ asks) :
    ReservedFirst (history ++ asks) selector ↔ ReservedFirst history selector := by
  induction asks using List.reverseRecOn with
  | nil => rw [List.append_nil]
  | append_singleton asks r ih =>
    rw [List.mem_append, List.mem_singleton, not_or] at asking
    rw [← List.append_assoc, reservedFirst_concat, ih asking.1]
    exact or_iff_left fun last => asking.2 last.1.symm

/-- A request adds nothing to what is remembered but a reserved name for itself, or a legal name for
the selector that it asks about. -/
theorem answer?_serve_cases {n : Namer} {r : Request} {selector name : String}
    (known : (n.serve r).answer? selector = some name) :
    n.answer? selector = some name ∨ n.answer? selector = none ∧
      (r = .reserve selector ∧ name = selector ∨
        (∃ base, r = .nameFor selector base) ∧ TypeName.isLegal name = true) := by
  cases r with
  | reserve other =>
    rw [serve, answer?_reserve, Option.or_eq_some_iff] at known
    obtain old | ⟨new, own⟩ := known
    · exact Or.inl old
    · split at own
      · rename_i same
        cases own
        exact Or.inr ⟨new, Or.inl ⟨same ▸ rfl, same⟩⟩
      · cases own
  | nameFor s base =>
    rw [serve] at known
    cases before : n.answer? s with
    | some old =>
      rw [nameFor_of_answered before] at known
      exact Or.inl known
    | none =>
      let made := n.freeName (TypeName.ofSelector (base.getD s))
      have tied : n.nameFor s base = (made, n.tie s made) := by
        have unknown : Dictionary.get? n.answers s = none := before
        rw [nameFor, unknown]
        rfl
      rw [tied, answer?_tie] at known
      split at known
      · rename_i same
        subst same
        rw [← Option.some.inj known]
        exact Or.inr ⟨before, Or.inr ⟨⟨base, rfl⟩, isLegal_freeName n _⟩⟩
      · exact Or.inl known

/-- What is remembered for a selector is the selector itself, if it was reserved first, and a legal
name otherwise. -/
theorem answer?_served_cases {requests : List Request} {selector name : String}
    (known : (served requests).answer? selector = some name) :
    ReservedFirst requests selector ∧ name = selector ∨
      ¬ ReservedFirst requests selector ∧ TypeName.isLegal name = true := by
  induction requests using List.reverseRecOn with
  | nil => cases known
  | append_singleton requests r ih =>
    rw [served_concat] at known
    rw [reservedFirst_concat]
    obtain old | ⟨new, step⟩ := answer?_serve_cases known
    · -- a selector that is known and was not asked about had been reserved already
      have late : r = .reserve selector ∧ ¬ Asked requests selector →
          ReservedFirst requests selector := by
        rintro ⟨-, fresh⟩
        refine reservedFirst_of_mem ?_ fresh
        by_contra free
        cases old.symm.trans (answer?_served_eq_none_iff.mpr ⟨free, fresh⟩)
      rw [or_iff_left_of_imp late]
      exact ih old
    · obtain ⟨free, fresh⟩ := answer?_served_eq_none_iff.mp new
      obtain ⟨rfl, same⟩ | ⟨⟨base, rfl⟩, legal⟩ := step
      · exact Or.inl ⟨Or.inr ⟨rfl, fresh⟩, same⟩
      · refine Or.inr ⟨?_, legal⟩
        rintro (⟨_, _, rfl, -⟩ | ⟨reserving, -⟩)
        · exact free (List.mem_append_right _ List.mem_cons_self)
        · cases reserving

/-- The name of a selector that is no legal name itself is legal unless the selector was reserved
first. Requests for names make no difference to this. -/
theorem isLegal_answer_iff {history asks : List Request} {selector name : String}
    (asking : .reserve selector ∉ asks) (odd : TypeName.isLegal selector = false)
    (known : ((served history).serveAll asks).answer? selector = some name) :
    TypeName.isLegal name = true ↔ ¬ ReservedFirst history selector := by
  have all : served (history ++ asks) = (served history).serveAll asks := List.foldl_append
  rw [← all] at known
  rw [← reservedFirst_append_iff asking]
  obtain ⟨first, rfl⟩ | ⟨notFirst, legal⟩ := answer?_served_cases known
  · rw [odd]
    exact iff_of_false Bool.false_ne_true fun not => not first
  · exact iff_of_true legal notFirst

end Namer

namespace Build

theorem reserve_notMem_outputRequests (b : Build) (entries : List Value)
    (selector : Option String) (given : Option Record) (name : String) :
    .reserve name ∉ b.outputRequests entries selector given := by
  intro h
  unfold outputRequests at h
  split at h
  · obtain ⟨s, heq⟩ := OutputFields.eq_of_mem_requestsBelow _ _ _ _ _ h
    cases heq
  · cases h

theorem reserve_notMem_filterRequests (b : Build) (entries : List Value)
    (place : FilterFields.Place) (given : Option Record) (path : Option String) (name : String) :
    .reserve name ∉ b.filterRequests entries place given path := by
  have asked {r : Namer.Request} (h : FilterFields.IsRequest r) : r ≠ .reserve name := by
    obtain ⟨_, _, _, _, rfl⟩ := h
    exact nofun
  intro h
  unfold filterRequests at h
  split at h
  · cases h
  · exact asked (FilterFields.isRequest_of_mem_requestsBelow _ _ _ _ h) rfl
  · split at h
    · cases h
    · exact asked (FilterFields.isRequest_of_mem_requestsBelow _ _ _ _ h) rfl

end Build

/-- The name of a definition, and those of its values. -/
def Definition.names {τ : Type} : Definition τ → List String
  | object name _ => [name]
  | input name _ => [name]
  | enum name values => name :: values.map Prod.fst

/-- A definition has one name, which is remembered for a place. It is legal unless the place had
been reserved as a name before anybody asked for it. -/
structure NamedFor (history : List Namer.Request) (n : Namer) (place : String)
    (d : Definition LinkedType) : Prop where
  one : d.names = [d.name]
  known : n.answer? place = some d.name
  legal : TypeName.isLegal d.name = true ↔ ¬ Namer.ReservedFirst history place

theorem NamedFor.of_answer? {history asks : List Namer.Request} {place : String}
    {d : Definition LinkedType} (one : d.names = [d.name]) (asking : .reserve place ∉ asks)
    (odd : TypeName.isLegal place = false)
    (known : ((Namer.served history).serveAll asks).answer? place = some d.name) :
    NamedFor history ((Namer.served history).serveAll asks) place d :=
  ⟨one, known, Namer.isLegal_answer_iff asking odd known⟩

namespace FilterFields

/-- The names of a sort input are legal when a name may begin with the name of the type, and no key
is empty but above other fields. -/
theorem isLegal_sortField_iff {records : List Record} {typeName : String} {sort : FilterField}
    (h : sortField records typeName = some sort) :
    (∀ d, sort.type.Contains d → ∀ name ∈ d.names, TypeName.isLegal name = true) ↔
      TypeName.beginsName typeName = true ∧
        ∀ v, ("", v) ∈ Example.ofRecords records → ∃ field rest, v = .mapping (field :: rest) := by
  obtain ⟨fields, -, contains⟩ := exists_contains_sortField h
  have input : TypeName.isLegal "SortBy" = true := by decide
  have enum : TypeName.isLegal "SortByFieldsEnum" = true := by decide
  have order : TypeName.isLegal "SortOrderValues" = true := by decide
  have directions : TypeName.isLegal "ASC" = true ∧ TypeName.isLegal "DESC" = true := by decide
  have values : ((SortFields.ofRecords records).map fun entry =>
      (entry.1, Value.text entry.2)).map Prod.fst = Dictionary.keys (SortFields.ofRecords records) :=
    List.map_map
  simp only [contains, or_imp, forall_and, forall_eq, Definition.names, List.forall_mem_cons, values,
    SortFields.isLegal_keys_iff, TypeName.isLegal_append_iff input, TypeName.isLegal_append_iff enum,
    TypeName.isLegal_append_iff order, directions, List.map_cons, List.map_nil, List.not_mem_nil,
    false_implies, implies_true, and_true]
  constructor
  · rintro ⟨-, ⟨begins, keys⟩, -⟩
    exact ⟨begins, keys⟩
  · rintro ⟨begins, keys⟩
    exact ⟨TypeName.beginsName_smallFirst begins, ⟨begins, keys⟩,
      TypeName.beginsName_smallFirst begins⟩

end FilterFields

namespace Build
variable (b : Build) (history : List Namer.Request) (entries : List Value) (given : Option Record)

theorem namedFor_outputFields {selector : Option String} {fields : Dictionary OutputField}
    (h : ((b.setNamer (Namer.served history)).outputFields entries selector given).1 = .ok fields)
    {key : String} {f : OutputField} {d : Definition LinkedType} (found : (key, f) ∈ fields)
    (within : f.Contains d) :
    ∃ typeName path, typeNameOf entries = .ok typeName ∧
      NamedFor history
        ((b.setNamer (Namer.served history)).outputFields entries selector given).2.pass.namer
        (typeName ++ "." ++ OutputFields.selectorAt (selector.getD "") path) d := by
  obtain ⟨typeName, typed, path, name, inner, rfl, -, known⟩ := made_of_outputFields h found within
  rw [namer_outputFields] at known ⊢
  have odd : TypeName.isLegal
      (typeName ++ "." ++ OutputFields.selectorAt (selector.getD "") path) = false :=
    TypeName.not_isLegal_of_mem (c := '.') (by simp) (by decide)
  exact ⟨typeName, path, typed,
    .of_answer? rfl (reserve_notMem_outputRequests _ entries selector given _) odd known⟩

/-- Nobody but the maker of sort inputs names a filter otherwise. -/
theorem namedFor_filterFields {place : FilterFields.Place} {path : Option String}
    {filters : Dictionary FilterField}
    (h : ((b.setNamer (Namer.served history)).filterFields entries place given path).1 = .ok filters)
    {key : String} {f : FilterField} {d : Definition LinkedType} (found : (key, f) ∈ filters)
    (within : f.type.Contains d) :
    ∃ stem, FilterFields.stemOf entries place = .ok stem ∧
      ((∃ steps ending, NamedFor history
        ((b.setNamer (Namer.served history)).filterFields entries place given path).2.pass.namer
        (FilterFields.pathAt (path.getD stem) steps ++ ":" ++ ending) d) ∨
      ∃ records, key = "sortBy" ∧ Record.listOf entries = .ok records ∧
        FilterFields.sortField records stem = some f) := by
  obtain ⟨stem, stems, made | sorted⟩ := made_of_filterFields h found within
  · obtain ⟨steps, ending, name, inner, rfl, -, known⟩ := made
    rw [namer_filterFields] at known ⊢
    have odd : TypeName.isLegal
        (FilterFields.pathAt (path.getD stem) steps ++ ":" ++ ending) = false :=
      TypeName.not_isLegal_of_mem (c := ':') (by simp) (by decide)
    exact ⟨stem, stems, Or.inl ⟨steps, ending,
      .of_answer? rfl (reserve_notMem_filterRequests _ entries place given path _) odd known⟩⟩
  · exact ⟨stem, stems, Or.inr sorted⟩

end Build

/-- Over any records, and whatever was asked and reserved before: a definition in what output
inference or filter inference finds has one name, which is legal unless the place that it is named
for was reserved first, or else it stands in a sort input. The names of a sort input are legal
exactly when a name may begin with the name of the type and no key is empty but above other
fields. -/
theorem generatedNames_legal_iff (b : Build) (history : List Namer.Request) (records : List Record)
    (given : Option Record) :
    let context := b.setNamer (Namer.served history)
    let entries := records.map Value.mapping
    (∀ selector, ∃ fields after,
      context.outputFields entries selector given = (.ok fields, after) ∧
      ∀ key f d, (key, f) ∈ fields → f.Contains d → ∃ path,
        NamedFor history after.pass.namer (Record.sharedTypeName records ++ "." ++
          OutputFields.selectorAt (selector.getD "") path) d) ∧
    (∀ place path, ∃ stem filters after, FilterFields.stemOf entries place = .ok stem ∧
      context.filterFields entries place given path = (.ok filters, after) ∧
      ∀ key f d, (key, f) ∈ filters → f.type.Contains d →
        (∃ steps ending, NamedFor history after.pass.namer
          (FilterFields.pathAt (path.getD stem) steps ++ ":" ++ ending) d) ∨
        key = "sortBy" ∧ FilterFields.sortField records stem = some f) ∧
    ∀ typeName sort, FilterFields.sortField records typeName = some sort →
      ((∀ d, sort.type.Contains d → ∀ name ∈ d.names, TypeName.isLegal name = true) ↔
        TypeName.beginsName typeName = true ∧
          ∀ v, ("", v) ∈ Example.ofRecords records → ∃ field rest, v = .mapping (field :: rest)) := by
  intro context entries
  refine ⟨fun selector => ?objects, fun place path => ?filters, fun _ _ => ?sorts⟩
  case objects =>
    obtain ⟨fields, ok⟩ : ∃ fields, (context.outputFields entries selector given).1 = .ok fields :=
      ⟨_, congrArg Prod.fst (context.outputFields_mapping records selector given)⟩
    refine ⟨fields, _, Prod.ext ok rfl, fun key f d found within => ?_⟩
    obtain ⟨typeName, path, typed, named⟩ :=
      Build.namedFor_outputFields b history entries given ok found within
    cases (typeNameOf_mapping records).symm.trans typed
    exact ⟨path, named⟩
  case filters =>
    obtain ⟨stem, filters, stems, ok⟩ := context.exists_filterFields records place given path
    refine ⟨stem, filters, _, stems, Prod.ext ok rfl, fun key f d found within => ?_⟩
    obtain ⟨_, same, named | ⟨listed, sortBy, same', sorted⟩⟩ :=
      Build.namedFor_filterFields b history entries given ok found within
    · cases stems.symm.trans same
      exact Or.inl named
    · cases stems.symm.trans same
      cases (Record.listOf_mapping records).symm.trans same'
      exact Or.inr ⟨sortBy, sorted⟩
  case sorts => exact FilterFields.isLegal_sortField_iff

private def titled : Record := [("type", .text "Post")]

private theorem ofRecords_titled : Example.ofRecords [titled] = titled :=
  Example.ofRecords_singleton (by decide)
    (List.forall_mem_singleton.mpr (Example.merge_leaf rfl _))

/-- An object inside a post and the sort input of posts have legal names only, also when the name of
the posts themselves is reserved. -/
theorem generatedNames_legal_post :
    let context := (Build.start .empty .empty ⟨⟨2020, 1, 10⟩, 0, 0, 0, 0, 0⟩).setNamer
      (Namer.served [.reserve "Post"])
    (∃ fields after, context.outputFields ([titled].map Value.mapping) none
        (some [("seo", .mapping [("size", .int 1)])]) = (.ok fields, after) ∧
      OutputFields.ObjectBelow fields [.key "seo"] "PostSeo" ∧
      ∀ key f d, (key, f) ∈ fields → f.Contains d → TypeName.isLegal d.name = true) ∧
    ∃ sort, FilterFields.sortField [titled] "Post" = some sort ∧
      ∀ d, sort.type.Contains d → ∀ name ∈ d.names, TypeName.isLegal name = true := by
  intro context
  obtain ⟨objects, -, sorts⟩ := generatedNames_legal_iff
    (Build.start .empty .empty ⟨⟨2020, 1, 10⟩, 0, 0, 0, 0, 0⟩) [.reserve "Post"] [titled]
    (some [("seo", .mapping [("size", .int 1)])])
  constructor
  · obtain ⟨fields, after, called, named⟩ := objects none
    have made : (context.outputFields ([titled].map Value.mapping) none
        (some [("seo", .mapping [("size", .int 1)])])).1 =
      .ok [("seo", OutputField.plain (.named (.object "PostSeo"
        [("size", OutputField.plain (.scalar .int))])))] := by
      rw [Build.outputFields_mapping]
      rfl
    obtain rfl := Except.ok.inj ((congrArg Prod.fst called).symm.trans made)
    refine ⟨_, after, called, ⟨_, _, _, rfl, rfl, .here⟩, fun key f d found within => ?_⟩
    obtain ⟨path, name⟩ := named key f d found within
    refine name.legal.mpr ?_
    rintro ⟨before, rest, parts, -⟩
    have first : .reserve (Record.sharedTypeName [titled] ++ "." ++ OutputFields.selectorAt "" path) ∈
        [Namer.Request.reserve "Post"] := by
      rw [parts]
      exact List.mem_append_right _ List.mem_cons_self
    have place := Namer.Request.reserve.inj (List.mem_singleton.mp first)
    have dotted : '.' ∈ "Post".toList := by
      rw [← place]
      simp
    exact absurd dotted (by decide)
  · have leaves : (SortFields.ofRecords [titled]).isEmpty = false := by
      rw [SortFields.ofRecords, ofRecords_titled]
      decide +kernel
    obtain ⟨_, sorted⟩ := FilterFields.exists_sortField "Post" leaves
    refine ⟨_, sorted, (sorts _ _ sorted).mpr ⟨by decide, fun v found => ?_⟩⟩
    rw [ofRecords_titled] at found
    simp [titled] at found

private def odd : Record := [("type", .text "my post"), ("", .int 1)]

private theorem ofRecords_odd : Example.ofRecords [odd] = odd := by
  refine Example.ofRecords_singleton (by decide) ?_
  simp only [odd, List.forall_mem_cons]
  exact ⟨Example.merge_leaf rfl _, Example.merge_leaf rfl _, nofun⟩

/-- The sort input of a type with a blank in its name and of a field without a name. And an object
inside a record, whose type gets the name of another record type that reads like the place of this
object. -/
theorem generatedNames_odd :
    (∃ sort fields, FilterFields.sortField [odd] "my post" = some sort ∧
      sort.type.Contains (.input "my postSortBy" fields) ∧
      sort.type.Contains
        (.enum "my postSortByFieldsEnum" [("type", .text "type"), ("", .text "")]) ∧
      TypeName.isLegal "my postSortBy" = false ∧
      TypeName.isLegal "my postSortByFieldsEnum" = false ∧ TypeName.isLegal "" = false) ∧
    ∃ fields, (((Build.start .empty .empty ⟨⟨2020, 1, 10⟩, 0, 0, 0, 0, 0⟩).setNamer
        (Namer.served [.reserve "Foo.bar"])).outputFields
          ([[("type", .text "Foo")]].map Value.mapping) none
          (some [("bar", .mapping [("size", .int 1)])])).1 = .ok fields ∧
      OutputFields.ObjectBelow fields [.key "bar"] "Foo.bar" ∧
      TypeName.isLegal "Foo.bar" = false := by
  constructor
  · have leaves : SortFields.ofRecords [odd] = [("type", "type"), ("", "")] := by
      rw [SortFields.ofRecords, ofRecords_odd]
      decide +kernel
    obtain ⟨_, sorted⟩ := FilterFields.exists_sortField "my post" (by rw [leaves]; rfl)
    obtain ⟨fields, -, contains⟩ := FilterFields.exists_contains_sortField sorted
    have enum := (contains _).mpr (Or.inr (Or.inl rfl))
    rw [leaves] at enum
    exact ⟨_, fields, sorted, (contains _).mpr (Or.inl rfl), enum, by decide, by decide, by decide⟩
  · refine ⟨[("bar", OutputField.plain (.named (.object "Foo.bar"
      [("size", OutputField.plain (.scalar .int))])))], ?_, ?_, by decide⟩
    · rw [Build.outputFields_mapping]
      rfl
    · exact ⟨_, _, _, rfl, rfl, .here⟩

end ContentSchema
