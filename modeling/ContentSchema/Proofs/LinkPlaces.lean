import ContentSchema.Proofs.BuildPass
import ContentSchema.Proofs.ExampleShapes
import ContentSchema.Proofs.LinkReading
import ContentSchema.Proofs.VisitedKeys

/-! Links by their places in a record type. Each one reads a key that the merged example has at the
same place, and follows several values exactly when the example has a sequence there. -/
namespace ContentSchema

namespace Resolver

/-- The key that a resolver reads. -/
def key : Resolver → String
  | .date fieldName => fieldName
  | .mapping fieldKey _ _ => fieldKey
  | .node fieldKey _ _ => fieldKey
  | .file fieldKey => fieldKey

/-- Whether a resolver follows the members of a value, and not the value itself. -/
def followsMembers : Resolver → Bool
  | .mapping _ _ isList => isList
  | .node _ _ isList => isList
  | .date _ | .file _ => false

/-- The name of the field that a resolver is made for. -/
def fieldName : Resolver → String
  | .node fieldKey _ _ => LinkKey.clean fieldKey
  | resolver => resolver.key

end Resolver

theorem Location.items?_of_isFilePath {convention : MediaType.Convention} {v : Value}
    (h : isFilePath convention v = .ok true) : v.items? = none := by
  cases v with
  | text s => rfl
  | _ => cases h

namespace OutputFields

/-- A field by its place in a type: the way down to the object that has it, and its name there.
Linked record types are not looked into. -/
inductive FieldAt : LinkedType → List PathStep → String → OutputField → Prop where
  | here {owner name : String} {fields : Dictionary OutputField} {f : OutputField}
      (found : Dictionary.get? fields name = some f) :
      FieldAt (.named (.object owner fields)) [] name f
  | key {owner key name : String} {fields : Dictionary OutputField} {f g : OutputField}
      {path : List PathStep} (found : Dictionary.get? fields key = some f)
      (deeper : FieldAt f.type path name g) :
      FieldAt (.named (.object owner fields)) (.key key :: path) name g
  | element {t : LinkedType} {name : String} {g : OutputField} {path : List PathStep}
      (deeper : FieldAt t path name g) : FieldAt (.list t) (.element :: path) name g

/-- If a field is a link, then one made from what an example has under a key. -/
def MadeOf (name : String) (f : OutputField) (shown : String → Value → Prop) : Prop :=
  ∀ resolver, f.resolver = some resolver → resolver.isLink = true →
    resolver.fieldName = name ∧
      ∃ v, shown resolver.key v ∧ v.items?.isSome = resolver.followsMembers

/-- The links inside a type are made from what a value has at their places. -/
def Placed (v : Value) (t : LinkedType) : Prop :=
  ∀ path name g, FieldAt t path name g →
    MadeOf name g fun key w => v.Holds (path ++ [.key key]) w

/-- A field that is made from some of the fields of a mapping. -/
structure FieldPlaced (fields : Record) (name : String) (f : OutputField) : Prop where
  own : MadeOf name f fun key v => (key, v) ∈ fields
  /-- Only an example of the same name has links inside. -/
  inner : ∀ path key g, FieldAt f.type path key g → ∃ v, (name, v) ∈ fields ∧ Placed v f.type

theorem FieldPlaced.mono {fields more : Record} {name : String} {f : OutputField}
    (h : FieldPlaced fields name f) (kept : ∀ entry ∈ fields, entry ∈ more) :
    FieldPlaced more name f where
  own resolver attached link := by
    obtain ⟨named, v, shown, shape⟩ := h.own resolver attached link
    exact ⟨named, v, kept _ shown, shape⟩
  inner path key g within := by
    obtain ⟨v, hmem, placed⟩ := h.inner path key g within
    exact ⟨v, kept _ hmem, placed⟩

/-- What the fields of a mapping are made from stands in the mapping. -/
theorem placed_object {owner : String} {fields : Record} {found : Dictionary OutputField}
    (distinct : (Dictionary.keys fields).Nodup)
    (each : ∀ name f, (name, f) ∈ found → FieldPlaced fields name f) :
    Placed (.mapping fields) (.named (.object owner found)) := by
  intro path name g within resolver attached link
  cases within with
  | here at_ =>
    obtain ⟨named, v, hmem, shape⟩ :=
      (each name g (Dictionary.mem_of_get? at_)).own resolver attached link
    exact ⟨named, v, .key (Dictionary.get?_eq_of_mem distinct hmem) (.here v), shape⟩
  | key at_ deeper =>
    obtain ⟨v, hmem, placed⟩ := (each _ _ (Dictionary.mem_of_get? at_)).inner _ _ _ deeper
    obtain ⟨named, w, shown, shape⟩ := placed _ _ _ deeper resolver attached link
    exact ⟨named, w, .key (Dictionary.get?_eq_of_mem distinct hmem) shown, shape⟩

theorem placed_sequence {v head : Value} {rest : List Value} {t : LinkedType}
    (sequence : v.items? = some (head :: rest)) (placed : Placed head t) : Placed v (.list t) := by
  intro path name g within resolver attached link
  cases within with
  | element deeper =>
    obtain ⟨named, w, shown, shape⟩ := placed _ _ _ deeper resolver attached link
    exact ⟨named, w, .element sequence List.mem_cons_self shown, shape⟩

theorem fieldAt_scalarField? {fieldName : String} {v : Value} {f : OutputField}
    (h : scalarField? fieldName v = some f) (path : List PathStep) (name : String)
    (g : OutputField) : ¬ FieldAt f.type path name g := by
  intro within
  unfold scalarField? at h
  split at h
  · cases h
    cases within
  · obtain ⟨s, _, rfl⟩ := Option.map_eq_some_iff.mp h
    cases within

theorem fieldPlaced_link {site : Site} {typeName selector key : String} {v : Value}
    {fields : Record} {field : String × OutputField}
    (h : linkOf? site typeName selector key v = some (.ok field)) (hmem : (key, v) ∈ fields) :
    FieldPlaced fields field.1 field.2 where
  own := by
    let x : Visit := ⟨selector, key, v, ⟨.empty, []⟩⟩
    intro resolver attached _
    cases (x.links_iff site typeName field).mpr h with
    | configured => cases attached; exact ⟨rfl, v, hmem, rfl⟩
    | byKey => cases attached; exact ⟨rfl, v, hmem, rfl⟩
    | byLocation _ _ _ path =>
      cases attached
      exact ⟨rfl, v, hmem, by rw [Location.items?_of_isFilePath path]; rfl⟩
  inner := by
    obtain ⟨target, isList, resolver, heq⟩ := eq_link_of_linkOf? h
    rw [heq]
    intro path name g within
    cases isList with
    | false => cases within
    | true =>
      cases within with
      | element deeper => cases deeper

/-- A value by itself is never made a link. Those inside it are placed. -/
private structure ValuePlaced (v : Value) (f : OutputField) : Prop where
  own : ∀ resolver, f.resolver = some resolver → resolver.isLink = false
  inner : Placed v f.type

/-- The fields that are found for a mapping are made from its fields. -/
private def FieldsPlaced (fields : Record) (found : List (String × OutputField)) : Prop :=
  (∀ key v, (key, v) ∈ fields → v.KeysDistinct) → ∀ name f, (name, f) ∈ found →
    FieldPlaced fields name f

private theorem FieldsPlaced.tail {fields : Record} {found : List (String × OutputField)}
    (h : FieldsPlaced fields found) (entry : String × Value) :
    FieldsPlaced (entry :: fields) found := by
  intro distinct name f hmem
  have others := h fun key v hmem => distinct key v (List.mem_cons_of_mem _ hmem)
  exact (others name f hmem).mono fun _ => List.mem_cons_of_mem _

private theorem run_placed (site : Site) (typeName : String) :
    (∀ selector fieldName v pass, v.KeysDistinct → ∀ f,
      (ofValue site typeName selector fieldName v pass).1 = some f → ValuePlaced v f) ∧
    ∀ selector fields pass,
      FieldsPlaced fields (ofFields site typeName selector fields pass).1 := by
  refine run_induction site typeName
    (P := fun _ _ v _ found _ => v.KeysDistinct → ∀ f, found = some f → ValuePlaced v f)
    (Q := fun _ fields _ found _ => FieldsPlaced fields found)
    ?sequence ?empty ?single ?noField ?object ?nil ?failed ?linked ?untyped ?typed
  case sequence =>
    intro _ _ _ _ _ _ found _ sequence ih distinct f hf
    obtain ⟨inner, hinner, rfl⟩ := Option.map_eq_some_iff.mp hf
    have head := ih (distinct.member sequence List.mem_cons_self) inner hinner
    exact ⟨nofun, placed_sequence sequence head.inner⟩
  case empty => exact fun _ _ _ _ _ _ => nofun
  case single =>
    intro _ _ v _ _ _ _ f hf
    refine ⟨?own, fun path name g within => absurd within (fieldAt_scalarField? hf path name g)⟩
    unfold scalarField? at hf
    split at hf
    · cases hf
      intro resolver attached
      cases attached
      rfl
    · obtain ⟨s, _, rfl⟩ := Option.map_eq_some_iff.mp hf
      exact nofun
  case noField => exact fun _ _ _ _ _ _ _ => nofun
  case object =>
    intro _ _ fields _ found _ ih _ distinct f hf
    cases hf
    have each := ih fun key v hmem => distinct.field hmem
    exact ⟨nofun, placed_object distinct.own fun name f hmem =>
      each name f (Dictionary.mem_of_mem_ofList hmem)⟩
  case nil => exact fun _ _ _ => nofun
  case failed => exact fun _ _ _ _ _ _ _ _ _ ih => ih.tail _
  case linked =>
    intro _ _ _ _ _ field _ _ link ih distinct name f hmem
    rcases List.mem_cons.mp hmem with heq | hmem
    · cases heq
      exact fieldPlaced_link link List.mem_cons_self
    · exact ih.tail _ distinct name f hmem
  case untyped => exact fun _ _ _ _ _ _ _ _ _ _ ih => ih.tail _
  case typed =>
    intro _ key v _ _ g _ _ _ _ ihv ih distinct name f hmem
    rcases List.mem_cons.mp hmem with heq | hmem
    · cases heq
      have placed := ihv (distinct key v List.mem_cons_self) g rfl
      refine ⟨fun resolver attached link => ?_,
        fun _ _ _ _ => ⟨v, List.mem_cons_self, placed.inner⟩⟩
      rw [placed.own resolver attached] at link
      cases link
    · exact ih.tail _ distinct name f hmem

/-- The fields that inference finds for the example of some records are made from the fields of the
example that not every record has. -/
theorem fieldPlaced_ofExample (site : Site) (typeName : String) (records : List Record)
    (pass : Pass) {name : String} {f : OutputField}
    (h : (name, f) ∈ (ofExample site typeName none (Example.ofRecords records) pass).1) :
    FieldPlaced (shown none (Example.ofRecords records)) name f := by
  have distinct := Example.keysDistinct_ofRecords records
  exact (run_placed site typeName).2 "" _ pass
    (fun key v hmem => distinct.field (List.mem_of_mem_filter hmem)) name f
    (Dictionary.mem_of_mem_ofList h)

end OutputFields

namespace Build

/-- The record type of some records. Each link in it is made from what the example of the records
has at the same place; nothing in it stands below a key that every record has. -/
theorem exists_linkPlaces (b : Build) (records : List Record) :
    ∃ name type, (b.recordType (records.map Value.mapping)).1 = .ok name ∧
      (b.recordType (records.map Value.mapping)).2.site.registry.get? name = some type ∧
      (b.recordType (records.map Value.mapping)).2.site.store = b.site.store ∧
      OutputFields.Placed (.mapping (Example.ofRecords records))
        (.named (.object name type.fields)) ∧
      ∀ key path field g, OutputFields.FieldAt (.named (.object name type.fields))
        (.key key :: path) field g → key ∉ OutputFields.excluded := by
  let name := Record.sharedTypeName records
  let type := ((b.site.declaring records).inferred records b.pass).1
  have each (field : String) (f : OutputField) (hmem : (field, f) ∈ type.fields) :
      OutputFields.FieldPlaced (OutputFields.shown none (Example.ofRecords records)) field f :=
    OutputFields.fieldPlaced_ofExample _ _ records _ hmem
  refine ⟨name, type, ?built, ?registered, ?store, ?placed, ?below⟩
  case built => rw [recordType_mapping]
  case registered =>
    rw [recordType_mapping]
    change Dictionary.get? (Dictionary.put b.site.registry.types name type) name = some type
    rw [Dictionary.get?_put, if_pos rfl]
  case store =>
    rw [recordType_mapping]
    rfl
  case placed =>
    refine OutputFields.placed_object (Example.nodup_keys_ofRecords records) fun field f hmem => ?_
    exact (each field f hmem).mono fun entry => List.mem_of_mem_filter
  case below =>
    intro key path field g within
    cases within with
    | key at_ deeper =>
      obtain ⟨v, hmem, _⟩ := (each _ _ (Dictionary.mem_of_get? at_)).inner _ _ _ deeper
      have kept := (List.mem_filter.mp hmem).2
      simpa using kept

end Build
end ContentSchema
