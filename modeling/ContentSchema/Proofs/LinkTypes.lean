import ContentSchema.Proofs.DictionaryEntries
import ContentSchema.Proofs.LeafObservations
import ContentSchema.Proofs.StoredLinks
import ContentSchema.Proofs.VisitedKeys

/-! The types of the records that links give. Configured links and file links give records of the
type that their field names. A link by its key is typed by one example, and gives records of any
type. -/
namespace ContentSchema

namespace OutputFields

/-- A field of an object type, or of an object inside it. Linked record types are not looked into. -/
inductive FieldIn : LinkedType → OutputField → Prop where
  | here {owner key : String} {fields : Dictionary OutputField} {f : OutputField}
      (found : (key, f) ∈ fields) : FieldIn (.named (.object owner fields)) f
  | inside {owner key : String} {fields : Dictionary OutputField} {f g : OutputField}
      (found : (key, f) ∈ fields) (deeper : FieldIn f.type g) :
      FieldIn (.named (.object owner fields)) g
  | element {t : LinkedType} {g : OutputField} (deeper : FieldIn t g) : FieldIn (.list t) g

end OutputFields

/-- The record type that a link was made for. A link by its key was made for the type of a record that
some value points at. -/
inductive Resolver.MadeFor (site : Site) (target : String) : Resolver → Prop where
  | mapping (key : String) (isList : Bool) : MadeFor site target (.mapping key target isList)
  | node (key : String) (isList : Bool) {linkedField : Option String} {first : Value} {r : Record}
      (pointed : site.store.linked? first linkedField = .ok (some r))
      (named : Record.typeName r = target) : MadeFor site target (.node key linkedField isList)
  | file (key : String) (files : fileType = target) : MadeFor site target (.file key)

namespace OutputField

/-- If the field is a link, then one to a registered record type. -/
def IsMade (site : Site) (f : OutputField) : Prop :=
  ∀ resolver, f.resolver = some resolver → resolver.isLink = true →
    ∃ target isList, f = .link target isList resolver ∧ site.registry.has target = true ∧
      resolver.MadeFor site target

theorem isMade_plain (site : Site) (t : LinkedType) : (plain t).IsMade site := nofun

theorem isMade_of_links {site : Site} {typeName : String} {x : OutputFields.Visit}
    {field : String × OutputField} (h : x.Links site typeName field) : field.2.IsMade site := by
  intro resolver attached _
  cases h with
  | configured named registered =>
    cases attached
    exact ⟨_, _, rfl, registered, .mapping _ _⟩
  | byKey unnamed marked sample pointed registered =>
    cases attached
    exact ⟨_, _, rfl, registered, .node _ _ pointed rfl⟩
  | byLocation unnamed unmarked noFile path registered =>
    cases attached
    exact ⟨_, _, rfl, registered, .file _ rfl⟩

end OutputField

namespace OutputFields
section
variable (site : Site)

/-- A field and all fields inside it are links only to registered record types. -/
structure AllMade (f : OutputField) : Prop where
  own : f.IsMade site
  inner : ∀ g, FieldIn f.type g → g.IsMade site

theorem allMade_scalarField? {fieldName : String} {v : Value} {f : OutputField}
    (h : scalarField? fieldName v = some f) : AllMade site f := by
  unfold scalarField? at h
  split at h
  · cases h
    refine ⟨fun resolver attached link => ?_, nofun⟩
    cases attached
    cases link
  · obtain ⟨s, _, rfl⟩ := Option.map_eq_some_iff.mp h
    exact ⟨OutputField.isMade_plain site _, nofun⟩

theorem allMade_list {f : OutputField} (h : AllMade site f) : AllMade site (.plain (.list f.type)) where
  own := OutputField.isMade_plain site _
  inner := by
    rintro g (_ | _ | deeper)
    exact h.inner g deeper

theorem allMade_object {name : String} {fields : Dictionary OutputField}
    (h : ∀ key f, (key, f) ∈ fields → AllMade site f) :
    AllMade site (.plain (.named (.object name fields))) where
  own := OutputField.isMade_plain site _
  inner := by
    intro g within
    cases within with
    | here found => exact (h _ _ found).own
    | inside found deeper => exact (h _ _ found).inner g deeper

theorem allMade_link {typeName selector key : String} {v : Value} {field : String × OutputField}
    (h : linkOf? site typeName selector key v = some (.ok field)) : AllMade site field.2 := by
  constructor
  case own =>
    let x : Visit := ⟨selector, key, v, ⟨.empty, []⟩⟩
    exact OutputField.isMade_of_links ((x.links_iff site typeName field).mpr h)
  case inner =>
    obtain ⟨target, isList, resolver, heq⟩ := eq_link_of_linkOf? h
    rw [heq]
    intro g within
    cases isList with
    | false => cases within
    | true =>
      cases within with
      | element deeper => cases deeper

theorem run_allMade (typeName : String) :
    (∀ selector fieldName v pass, ∀ f,
      (ofValue site typeName selector fieldName v pass).1 = some f → AllMade site f) ∧
    ∀ selector fields pass, ∀ key f,
      (key, f) ∈ (ofFields site typeName selector fields pass).1 → AllMade site f := by
  refine run_induction site typeName
    (P := fun _ _ _ _ found _ => ∀ f, found = some f → AllMade site f)
    (Q := fun _ _ _ found _ => ∀ key f, (key, f) ∈ found → AllMade site f)
    ?sequence ?empty ?single ?noField ?object ?nil ?failed ?linked ?untyped ?typed
  case sequence =>
    intro _ _ _ _ _ _ found _ _ ih f hf
    obtain ⟨inner, hinner, rfl⟩ := Option.map_eq_some_iff.mp hf
    exact allMade_list site (ih inner hinner)
  case empty => exact fun _ _ _ _ _ => nofun
  case single => exact fun _ _ _ _ _ _ f hf => allMade_scalarField? site hf
  case noField => exact fun _ _ _ _ _ _ => nofun
  case object =>
    intro _ _ _ _ found _ ih _ f hf
    cases hf
    exact allMade_object site fun key f hmem => ih key f (Dictionary.mem_of_mem_ofList hmem)
  case nil => exact fun _ _ => nofun
  case failed => exact fun _ _ _ _ _ _ _ _ _ ih => ih
  case linked =>
    intro _ _ _ _ _ field _ _ link ih key f hmem
    rcases List.mem_cons.mp hmem with heq | hmem
    · cases heq
      exact allMade_link site link
    · exact ih key f hmem
  case untyped => exact fun _ _ _ _ _ _ _ _ _ _ ih => ih
  case typed =>
    intro _ _ _ _ _ g _ _ _ _ ihv ih key f hmem
    rcases List.mem_cons.mp hmem with heq | hmem
    · cases heq
      exact ihv _ rfl
    · exact ih key f hmem

end
end OutputFields

namespace Registry

theorem has_put {r : Registry} {name target : String} {type : RecordType}
    (h : r.has target = true) : (r.put name type).has target = true := by
  unfold has get? put at *
  rw [Dictionary.get?_put]
  split
  · rfl
  · exact h

theorem graph_get? (r : Registry) (name : String) :
    r.graph.get? name = (r.get? name).map fun type => .object name type.fields := by
  unfold graph Graph.get? get?
  induction r.types with
  | nil => rfl
  | cons entry rest ih =>
    obtain ⟨k, type⟩ := entry
    rw [List.map_cons, List.lookup_cons, Dictionary.get?]
    by_cases h : k = name
    · simp [h]
    · have other : (name == k) = false := beq_eq_false_iff_ne.mpr (Ne.symm h)
      rw [other, if_neg h]
      exact ih

/-- A link field is of the object type that has the name of the linked record type. -/
theorem definition?_link {r : Registry} {target : String} (registered : r.has target = true)
    (isList : Bool) (resolver : Resolver) :
    (r.graph.definition? (OutputField.link target isList resolver).type).map Definition.name =
      some target := by
  have inner : (OutputField.link target isList resolver).type.inner = .link target := by
    cases isList <;> rfl
  obtain ⟨type, found⟩ := Option.isSome_iff_exists.mp registered
  rw [Graph.definition?, inner]
  simp only
  rw [graph_get?, found]
  rfl

end Registry

namespace Build

/-- Inference changes nothing of the site, and all links that it makes are to registered types. -/
theorem allMade_outputFields {b : Build} {entries : List Value} {selector : Option String}
    {given : Option Record} {fields : Dictionary OutputField}
    (h : (b.outputFields entries selector given).1 = .ok fields) :
    (b.outputFields entries selector given).2.site = b.site ∧
      ∀ key f, (key, f) ∈ fields → OutputFields.AllMade b.site f := by
  obtain ⟨typeName, shown, -, rfl, -⟩ := exists_run_of_outputFields h
  refine ⟨b.site_outputFields entries selector given, fun key f hmem => ?_⟩
  exact (OutputFields.run_allMade b.site typeName).2 _ _ _ key f (Dictionary.mem_of_mem_ofList hmem)

/-- A record type that is built has fields of which each link was made over the same records, for a
type that stays registered. -/
theorem exists_recordType {b : Build} {entries : List Value} {name : String}
    (built : (b.recordType entries).1 = .ok name) :
    ∃ fields site, (b.recordType entries).2.site.registry.get? name = some ⟨entries, fields⟩ ∧
      site.store = b.site.store ∧
      (∀ target, site.registry.has target = true →
        (b.recordType entries).2.site.registry.has target = true) ∧
      ∀ key f, (key, f) ∈ fields → OutputFields.AllMade site f := by
  unfold recordType at built ⊢
  cases typed : typeNameOf entries with
  | error e =>
    rw [typed] at built
    cases built
  | ok typeName =>
    rw [typed] at built
    simp only at built ⊢
    rcases inferred : (b.declareType typeName entries).outputFields entries none none with
      ⟨e | fields, after⟩
    · rw [inferred] at built
      cases built
    · rw [inferred] at built
      cases built
      obtain ⟨same, made⟩ := allMade_outputFields (congrArg Prod.fst inferred)
      rw [inferred] at same
      refine ⟨fields, (b.declareType name entries).site, ?registered, rfl, ?kept, made⟩
      case registered =>
        change Dictionary.get? (Dictionary.put after.site.registry.types name _) name = _
        rw [Dictionary.get?_put, if_pos rfl]
      case kept =>
        intro target registered
        rw [← same] at registered
        exact Registry.has_put registered

/-- A link gives nothing but what the records of the store say, and nothing when the store is out of
order. -/
theorem mem_read_of_mem_resolve {b : Build} {resolver : Resolver} (link : resolver.isLink = true)
    {source r : Record} {args : Value} {path : Option String}
    (h : r ∈ Query.returned (b.resolve resolver source args path).1) :
    b.site.store.fault = none ∧ r ∈ Query.returned (b.site.store.read source resolver) := by
  let query : Query := ⟨b.site.store, b.now, path⟩
  change r ∈ Query.returned ((query.resolve source args resolver).run.run b.dependencies).1 at h
  cases fault : b.site.store.fault with
  | some text =>
    have broken : query.store.fault = some text := fault
    obtain ⟨outcome, none, ends⟩ := Query.resolve_of_fault broken source args link
    have run : ((ofExcept outcome : Resolving Value).run.run b.dependencies).1 = outcome := by
      cases outcome <;> rfl
    rw [ends, run, none] at h
    cases h
  | none =>
    have working : query.store.fault = none := fault
    refine ⟨rfl, ?_⟩
    rw [Query.resolve_link working source args link] at h
    cases run : ((query.giving (query.store.read source resolver)).run.run b.dependencies).1 with
    | error e =>
      rw [run] at h
      cases h
    | ok v =>
      rw [run] at h
      rw [Query.eq_of_run_giving query run]
      exact h

end Build

theorem Value.eq_text_of_same {v : Value} {t : String} (h : v.same (.text t) = true) : v = .text t := by
  cases v <;> simp_all [Value.same, Value.quantity?]

namespace Resolver
variable {site : Site} {target : String} {resolver : Resolver} {reader : Build} {source r : Record}
  {args : Value} {path : Option String}

/-- A configured link and a file link look for records of their type only. -/
theorem MadeFor.type_of_mem_resolve (made : resolver.MadeFor site target)
    (typed : ∀ key linkedField isList, resolver ≠ .node key linkedField isList)
    (given : r ∈ Query.returned (reader.resolve resolver source args path).1) :
    Record.get r "type" = .text target := by
  apply Value.eq_text_of_same
  cases made with
  | mapping key isList =>
    have read := (Build.mem_read_of_mem_resolve rfl given).2
    rw [Store.read, Query.returned_followed] at read
    obtain ⟨v, _, found⟩ := List.mem_filterMap.mp read
    exact (Store.mem_of_typed? found).2
  | node key isList pointed named => exact absurd rfl (typed _ _ _)
  | file key files =>
    have read := (Build.mem_read_of_mem_resolve rfl given).2
    rw [← files]
    exact (Store.returned_read_file read).2

/-- A link by its key gives what the values point at. -/
theorem linked?_of_mem_resolve_node {key : String} {linkedField : Option String} {isList : Bool}
    (given : r ∈ Query.returned (reader.resolve (.node key linkedField isList) source args path).1) :
    ∃ v ∈ Query.targets isList (Record.get source key),
      reader.site.store.linked? v linkedField = .ok (some r) := by
  obtain ⟨working, read⟩ := Build.mem_read_of_mem_resolve rfl given
  rw [Store.read, Query.returned_followed] at read
  obtain ⟨v, hv, found⟩ := List.mem_filterMap.mp read
  exact ⟨v, hv, found ▸ Store.linked?_eq_ok working v linkedField⟩

end Resolver

/-- Configured links and file links give records of the type that the field names. A link by its key
names the type of the record that one example points at, and gives the records that the values it
follows point at. -/
theorem linkField_gives_named_type {b : Build} {entries : List Value} {name : String}
    (built : (b.recordType entries).1 = .ok name) :
    ∃ type, (b.recordType entries).2.site.registry.get? name = some type ∧
      ∀ f resolver, OutputFields.FieldIn (.named (.object name type.fields)) f →
        f.resolver = some resolver → resolver.isLink = true →
        ∃ target, ((b.recordType entries).2.site.registry.graph.definition? f.type).map
            Definition.name = some target ∧
          match resolver with
          | .node key linkedField isList =>
            ∃ first found, b.site.store.linked? first linkedField = .ok (some found) ∧
              Record.typeName found = target ∧
              ∀ (reader : Build) (source : Record) (args : Value) (path : Option String),
                ∀ r ∈ Query.returned (reader.resolve resolver source args path).1,
                  ∃ v ∈ Query.targets isList (Record.get source key),
                    reader.site.store.linked? v linkedField = .ok (some r) ∧
                    (v = first → reader.site.store = b.site.store → Record.typeName r = target)
          | _ =>
            ∀ (reader : Build) (source : Record) (args : Value) (path : Option String),
              ∀ r ∈ Query.returned (reader.resolve resolver source args path).1,
                Record.get r "type" = .text target := by
  obtain ⟨fields, site, registered, sameStore, kept, made⟩ := Build.exists_recordType built
  refine ⟨_, registered, fun f resolver within attached link => ?_⟩
  have all : OutputFields.AllMade site (.plain (.named (.object name fields))) :=
    OutputFields.allMade_object site made
  obtain ⟨target, isList, rfl, has, madeFor⟩ := all.inner f within resolver attached link
  refine ⟨target, Registry.definition?_link (kept target has) isList resolver, ?_⟩
  cases resolver with
  | date fieldName => cases link
  | mapping key type isList =>
    exact fun _ _ _ _ _ given => madeFor.type_of_mem_resolve nofun given
  | file key => exact fun _ _ _ _ _ given => madeFor.type_of_mem_resolve nofun given
  | node key linkedField isList =>
    obtain ⟨⟩ | ⟨_, _, pointed, named⟩ := madeFor
    rw [sameStore] at pointed
    refine ⟨_, _, pointed, named, fun reader source args path r given => ?_⟩
    obtain ⟨v, hv, found⟩ := Resolver.linked?_of_mem_resolve_node given
    refine ⟨v, hv, found, fun same store => ?_⟩
    rw [same, store, pointed] at found
    cases found
    exact named

/-- Two posts whose owners are of different types, and the owners. -/
private def posts : List Record :=
  [[("id", .text "p"), ("type", .text "Post"), ("owner___NODE", .text "a")],
    [("id", .text "q"), ("type", .text "Post"), ("owner___NODE", .text "b")]]

private def owners : List Record :=
  [[("id", .text "a"), ("type", .text "Person")], [("id", .text "b"), ("type", .text "Team")]]

private theorem ofEntries_posts : Example.ofEntries (posts.map Value.mapping) none =
    .ok [("id", .text "p"), ("type", .text "Post"), ("owner___NODE", .text "a")] := by
  have keys : Example.keys posts = ["id", "type", "owner___NODE"] := rfl
  have id : Example.merge (Example.column "id" posts) = some (.text "p") :=
    Example.merge_leaf rfl _
  have type : Example.merge (Example.column "type" posts) = some (.text "Post") :=
    Example.merge_leaf rfl _
  have owner : Example.merge (Example.column "owner___NODE" posts) = some (.text "a") :=
    Example.merge_leaf rfl _
  rw [Example.ofEntries, Record.listOf_mapping]
  simp only [Except.map, Example.ofRecords, keys, List.filterMap_cons, List.filterMap_nil, id, type,
    owner, Option.map_some]

/-- A build in which the type of the first owner is registered. -/
private def prepared (config : Configuration) : Build :=
  (Build.start (.afterAdding (owners ++ posts)) config ⟨⟨2020, 1, 10⟩, 0, 0, 0, 0, 0⟩).declareType
    "Person" []

/-- Told that owners are persons, the link gives no record of another type. -/
theorem linkField_gives_named_type_configured :
    let b := prepared ⟨[("Post.owner___NODE", "Person")]⟩
    let entries := posts.map Value.mapping
    (b.recordType entries).1 = .ok "Post" ∧
      ∀ (reader : Build) (source : Record) (args : Value) (path : Option String),
        ∀ r ∈ Query.returned (reader.resolve (.mapping "owner___NODE" "Person" false) source args
          path).1, Record.get r "type" = .text "Person" := by
  intro b entries
  have result : (b.recordType entries).1 = .ok "Post" ∧
      (b.recordType entries).2.site.registry.has "Person" = true ∧
      (b.recordType entries).2.site.registry.get? "Post" = some ⟨entries,
        [("owner___NODE", .link "Person" false (.mapping "owner___NODE" "Person" false))]⟩ := by
    have typed : typeNameOf entries = .ok "Post" := rfl
    unfold Build.recordType Build.outputFields
    simp only [typed, entries, ofEntries_posts]
    exact ⟨rfl, rfl, rfl⟩
  obtain ⟨built, has, stands⟩ := result
  obtain ⟨type, registered, sound⟩ := linkField_gives_named_type built
  rw [stands] at registered
  cases registered
  obtain ⟨target, named, gives⟩ := sound _ _ (.here (List.mem_singleton_self _)) rfl rfl
  rw [Registry.definition?_link has] at named
  cases named
  exact ⟨built, gives⟩

/-- Left to itself, the link is named for the owner of the first post, a person. On the second post
it gives a team. -/
theorem linkField_gives_other_type :
    let b := prepared .empty
    let entries := posts.map Value.mapping
    let after := (b.recordType entries).2
    let owner : OutputField := .link "Person" false (.node "owner___NODE" none false)
    (b.recordType entries).1 = .ok "Post" ∧
      after.site.registry.get? "Post" = some ⟨entries, [("owner", owner)]⟩ ∧
      (after.site.registry.graph.definition? owner.type).map Definition.name = some "Person" ∧
      (after.resolve (.node "owner___NODE" none false)
          [("id", .text "q"), ("type", .text "Post"), ("owner___NODE", .text "b")] (.mapping [])
          none).1 = .ok (.mapping [("id", .text "b"), ("type", .text "Team")]) := by
  intro b entries after owner
  have typed : typeNameOf entries = .ok "Post" := rfl
  have result : (b.recordType entries).1 = .ok "Post" ∧ after.site.registry.has "Person" = true ∧
      after.site.registry.get? "Post" = some ⟨entries, [("owner", owner)]⟩ ∧
      after.site.store = .afterAdding (owners ++ posts) := by
    simp only [after]
    unfold Build.recordType Build.outputFields
    simp only [typed, entries, ofEntries_posts]
    exact ⟨rfl, rfl, rfl, rfl⟩
  obtain ⟨built, has, stands, filled⟩ := result
  have consistent : after.site.store.Consistent := filled ▸ Store.consistent_additions _
  refine ⟨built, stands, Registry.definition?_link has _ _, ?_⟩
  rw [Build.resolve_link consistent rfl, filled]
  rfl

end ContentSchema
