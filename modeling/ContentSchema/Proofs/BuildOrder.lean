import ContentSchema.Proofs.Rebuilding
import ContentSchema.Proofs.TypeRenaming

/-! The order of building only shows in the names of nested objects. Once the types are registered,
passes over the same groups of records in different orders leave the same types, up to those names,
and the same warnings, up to their order. -/
namespace ContentSchema

/-- A field without the names of the object types inside it. Links stay. -/
def OutputField.unnamed (f : OutputField) : OutputField := f.rename id fun _ => ""

/-- Fields without the names of the object types inside them. -/
def OutputFields.unnamed (fields : List (String × OutputField)) : List (String × OutputField) :=
  fields.map fun (key, f) => (key, f.unnamed)

/-- A record type without the names of the object types inside its fields. -/
def RecordType.unnamed (type : RecordType) : RecordType :=
  ⟨type.nodes, OutputFields.unnamed type.fields⟩

/-- Two runs, each with its pass before and after it, leave the same warnings behind. -/
def Pass.SameWarnings (pass after other later : Pass) : Prop :=
  ∃ added, after.warnings = pass.warnings ++ added ∧ later.warnings = other.warnings ++ added

namespace Pass.SameWarnings

theorem refl (pass other : Pass) : SameWarnings pass pass other other :=
  ⟨[], (List.append_nil _).symm, (List.append_nil _).symm⟩

theorem trans {pass between after other middle later : Pass}
    (first : SameWarnings pass between other middle)
    (second : SameWarnings between after middle later) : SameWarnings pass after other later := by
  obtain ⟨added, here, there⟩ := first
  obtain ⟨more, here', there'⟩ := second
  exact ⟨added ++ more, by rw [here', here, List.append_assoc],
    by rw [there', there, List.append_assoc]⟩

end Pass.SameWarnings

namespace OutputFields

/-- A run over a value finds what another run finds, up to names. -/
private structure SameValue (pass : Pass) (found : Option OutputField) (after other : Pass)
    (run : Option OutputField × Pass) : Prop where
  found : run.1.map OutputField.unnamed = found.map OutputField.unnamed
  warnings : pass.SameWarnings after other run.2

/-- A run over the fields of a mapping finds what another run finds, up to names. -/
private structure SameFields (pass : Pass) (found : List (String × OutputField)) (after other : Pass)
    (run : List (String × OutputField) × Pass) : Prop where
  found : unnamed run.1 = unnamed found
  warnings : pass.SameWarnings after other run.2

/-- Assigning fields by their keys does not look at names. -/
private theorem unnamed_ofList (fields : List (String × OutputField)) :
    unnamed (Dictionary.ofList fields) = Dictionary.ofList (unnamed fields) := by
  unfold unnamed
  rw [Dictionary.ofList_map]

private theorem unnamed_object {name other : String} {found again : List (String × OutputField)}
    (same : unnamed again = unnamed found) :
    (OutputField.plain (.named (.object other (Dictionary.ofList again)))).unnamed =
      (OutputField.plain (.named (.object name (Dictionary.ofList found)))).unnamed := by
  have fields : unnamed (Dictionary.ofList again) = unnamed (Dictionary.ofList found) := by
    rw [unnamed_ofList, unnamed_ofList, same]
  simp only [OutputField.unnamed, Field.rename, OutputField.plain, SchemaType.rename,
    SchemaType.renameFields_eq_map]
  exact congrArg (fun fields => OutputField.plain (.named (.object "" fields))) fields

private theorem unnamed_list (f : OutputField) :
    (OutputField.plain (.list f.type)).unnamed = .plain (.list f.unnamed.type) := by
  simp only [OutputField.unnamed, Field.rename, OutputField.plain, SchemaType.rename]
  rfl

private theorem run_unnamed (site : Site) (typeName : String) :
    (∀ selector fieldName v pass other, SameValue pass
      (ofValue site typeName selector fieldName v pass).1
      (ofValue site typeName selector fieldName v pass).2 other
      (ofValue site typeName selector fieldName v other)) ∧
    ∀ selector fields pass other, SameFields pass
      (ofFields site typeName selector fields pass).1
      (ofFields site typeName selector fields pass).2 other
      (ofFields site typeName selector fields other) := by
  refine run_induction site typeName
    (P := fun selector fieldName v pass found after => ∀ other, SameValue pass found after other
      (ofValue site typeName selector fieldName v other))
    (Q := fun selector fields pass found after => ∀ other, SameFields pass found after other
      (ofFields site typeName selector fields other))
    ?sequence ?empty ?single ?noField ?object ?nil ?failed ?linked ?untyped ?typed
  case sequence =>
    intro selector fieldName w head rest pass found after members ih other
    rw [ofValue_sequence site typeName selector fieldName other members]
    refine ⟨?_, (ih other).warnings⟩
    have lists := congrArg (Option.map fun f => OutputField.plain (.list f.type)) (ih other).found
    simp only [Option.map_map, Function.comp_def, unnamed_list] at lists ⊢
    exact lists
  case empty =>
    intro selector fieldName w pass none other
    rw [ofValue_empty site typeName selector fieldName other none]
    exact ⟨rfl, .refl pass other⟩
  case single =>
    intro selector fieldName w pass noSequence noMapping other
    rw [ofValue_single site typeName selector fieldName other noSequence noMapping]
    exact ⟨rfl, .refl pass other⟩
  case noField =>
    intro selector fieldName fields pass after ih other
    have none := List.map_eq_nil_iff.mp (ih other).found
    rw [ofValue_of_noField (Prod.ext none rfl)]
    exact ⟨rfl, (ih other).warnings⟩
  case object =>
    intro selector fieldName fields pass found after ih some other
    have same := (ih other).found
    have some' : (ofFields site typeName selector fields other).1 ≠ [] := by
      intro none
      rw [none] at same
      exact some (List.map_eq_nil_iff.mp same.symm)
    rw [ofValue_of_fields (Prod.ext rfl rfl) some']
    exact ⟨congrArg Option.some (unnamed_object same), (ih other).warnings⟩
  case nil => exact fun _ pass other => ⟨rfl, .refl pass other⟩
  case failed =>
    intro selector key v rest pass e found after link ih other
    rw [ofFields_of_failed link]
    have later := ih { other with
      warnings := other.warnings ++ [e.warning (typeName ++ "." ++ childSelector selector key)] }
    exact ⟨later.found, .trans ⟨_, rfl, rfl⟩ later.warnings⟩
  case linked =>
    intro selector key v rest pass field found after link ih other
    rw [ofFields_of_linked link]
    exact ⟨congrArg (_ :: ·) (ih other).found, (ih other).warnings⟩
  case untyped =>
    intro selector key v rest pass between found after link ihv ih other
    have inner := ihv other
    have none := Option.map_eq_none_iff.mp inner.found
    rw [ofFields_of_untyped link (Prod.ext none rfl)]
    have later := ih (ofValue site typeName (childSelector selector key) key v other).2
    exact ⟨later.found, inner.warnings.trans later.warnings⟩
  case typed =>
    intro selector key v rest pass f between found after link ihv ih other
    have inner := ihv other
    obtain ⟨g, typed, same⟩ := Option.map_eq_some_iff.mp inner.found
    rw [ofFields_of_typed link (Prod.ext typed rfl)]
    have later := ih (ofValue site typeName (childSelector selector key) key v other).2
    refine ⟨?_, inner.warnings.trans later.warnings⟩
    exact congrArg₂ (fun h rest => (key, h) :: rest) same later.found

end OutputFields

namespace Site
variable (site : Site)

/-- The warnings that the records of one type give rise to. -/
def warningsOf (records : List Record) : List Warning :=
  (site.inferred records ⟨.empty, []⟩).2.warnings

/-- The record type of some records without the names of nested objects. -/
def shapeOf (records : List Record) : RecordType := (site.inferred records ⟨.empty, []⟩).1.unnamed

/-- What was named before has no bearing on what is found for some records. -/
theorem inferred_unnamed (records : List Record) (pass : Pass) :
    (site.inferred records pass).1.unnamed = site.shapeOf records ∧
      (site.inferred records pass).2.warnings = pass.warnings ++ site.warningsOf records := by
  let name := Record.sharedTypeName records
  let shown := (Example.ofRecords records).filter fun entry =>
    !OutputFields.excluded.contains entry.1
  let start : Pass := Pass.reserve ⟨.empty, []⟩ name
  have run := (OutputFields.run_unnamed site name).2 "" shown start (pass.reserve name)
  constructor
  case left =>
    have fields : OutputFields.unnamed (Dictionary.ofList
        (OutputFields.ofFields site name "" shown (pass.reserve name)).1) =
        OutputFields.unnamed (Dictionary.ofList
          (OutputFields.ofFields site name "" shown start).1) := by
      rw [OutputFields.unnamed_ofList, OutputFields.unnamed_ofList, run.found]
    exact congrArg (RecordType.mk (records.map Value.mapping)) fields
  case right =>
    obtain ⟨added, here, there⟩ := run.warnings
    have all : site.warningsOf records = added := here
    rw [all]
    exact there

theorem inferredAll_unnamed (groups : List (List Record)) (pass : Pass) :
    (site.inferredAll groups pass).1.map (fun (name, type) => (name, type.unnamed)) =
        groups.map (fun group => (Record.sharedTypeName group, site.shapeOf group)) ∧
      (site.inferredAll groups pass).2.warnings =
        pass.warnings ++ groups.flatMap site.warningsOf := by
  induction groups generalizing pass with
  | nil => exact ⟨rfl, (List.append_nil _).symm⟩
  | cons group rest ih =>
    obtain ⟨type, warnings⟩ := site.inferred_unnamed group pass
    obtain ⟨types, others⟩ := ih (site.inferred group pass).2
    constructor
    · rw [List.map_cons, ← type, ← types]
      rfl
    · rw [List.flatMap_cons, ← List.append_assoc, ← warnings]
      exact others

end Site

namespace Build

/-- Two builds with the same types, up to the names of nested objects, and the same warnings, up to
their order. -/
structure SameUpToNames (a b : Build) : Prop where
  names : a.site.registry.names = b.site.registry.names
  types : ∀ name, (a.site.registry.get? name).map RecordType.unnamed =
    (b.site.registry.get? name).map RecordType.unnamed
  warnings : a.pass.warnings.Perm b.pass.warnings

section
variable {b : Build} {groups : List (List Record)}
  (registered : ∀ group ∈ groups, b.site.registry.has (Record.sharedTypeName group) = true)
include registered

theorem get?_rebuild (distinct : (groups.map Record.sharedTypeName).Nodup) (name : String) :
    ((b.rebuild groups).2.site.registry.get? name).map RecordType.unnamed =
      (Dictionary.get? (groups.map fun group =>
        (Record.sharedTypeName group, b.site.shapeOf group)) name).or
          ((b.site.registry.get? name).map RecordType.unnamed) := by
  rw [rebuild_eq registered, ← (b.site.inferredAll_unnamed groups b.next.pass).1,
    Dictionary.get?_map]
  change (Dictionary.get? (Dictionary.assign _ _) name).map _ = _
  rw [Dictionary.get?_assign (Site.keys_inferredAll b.site groups b.next.pass ▸ distinct),
    Option.map_or]
  rfl

theorem warnings_rebuild :
    (b.rebuild groups).2.pass.warnings = groups.flatMap b.site.warningsOf := by
  rw [rebuild_eq registered]
  exact (b.site.inferredAll_unnamed groups b.next.pass).2

end

/-- Passes over the same groups in two orders leave the same types and warnings, whether both start
from the same registry or the second one finds what the first one left there. -/
theorem rebuild_perm (b : Build) {groups others : List (List Record)} (perm : groups.Perm others)
    (registered : ∀ group ∈ groups, b.site.registry.has (Record.sharedTypeName group) = true)
    (distinct : (groups.map Record.sharedTypeName).Nodup) :
    let first := b.rebuild groups
    let apart := b.rebuild others
    let after := first.2.rebuild others
    first.1 = (groups.map fun group => .ok (Record.sharedTypeName group)) ∧
      apart.1 = (others.map fun group => .ok (Record.sharedTypeName group)) ∧ after.1 = apart.1 ∧
      first.2.SameUpToNames apart.2 ∧ first.2.SameUpToNames after.2 := by
  intro first apart after
  have registered' : ∀ group ∈ others,
      b.site.registry.has (Record.sharedTypeName group) = true :=
    fun group hgroup => registered group (perm.mem_iff.mpr hgroup)
  have agrees : first.2.site.Agrees b.site := agrees_rebuild registered
  have again : ∀ group ∈ others,
      first.2.site.registry.has (Record.sharedTypeName group) = true :=
    fun group hgroup => (agrees.registered _).trans (registered' group hgroup)
  have distinct' : (others.map Record.sharedTypeName).Nodup :=
    (perm.map Record.sharedTypeName).nodup_iff.mp distinct
  have shapes (name : String) :
      Dictionary.get? (groups.map fun group => (Record.sharedTypeName group, b.site.shapeOf group))
          name =
        Dictionary.get? (others.map fun group =>
          (Record.sharedTypeName group, b.site.shapeOf group)) name := by
    apply Dictionary.get?_perm _ (perm.map _)
    unfold Dictionary.keys
    rw [List.map_map]
    exact distinct
  have warnings : (groups.flatMap b.site.warningsOf).Perm (others.flatMap b.site.warningsOf) :=
    perm.flatMap_right _
  refine ⟨outcomes_rebuild registered, outcomes_rebuild registered',
    (outcomes_rebuild again).trans (outcomes_rebuild registered').symm, ?apart, ?after⟩
  case apart =>
    refine ⟨?_, fun name => ?_, ?_⟩
    · rw [names_rebuild registered, names_rebuild registered']
    · rw [get?_rebuild registered distinct, get?_rebuild registered' distinct', shapes]
    · rw [warnings_rebuild registered, warnings_rebuild registered']
      exact warnings
  case after =>
    have sameShapes : first.2.site.shapeOf = b.site.shapeOf := by
      funext group
      rw [Site.shapeOf, agrees.inferred_eq]
      rfl
    have sameWarnings : first.2.site.warningsOf = b.site.warningsOf := by
      funext group
      rw [Site.warningsOf, agrees.inferred_eq]
      rfl
    refine ⟨?_, fun name => ?_, ?_⟩
    · rw [names_rebuild again]
    · rw [get?_rebuild again distinct', sameShapes, get?_rebuild registered distinct, ← shapes]
      cases Dictionary.get? (groups.map fun group =>
        (Record.sharedTypeName group, b.site.shapeOf group)) name <;> simp
    · rw [warnings_rebuild again, sameWarnings, warnings_rebuild registered]
      exact warnings

/-- Records of two types. The name of both nested objects is made up as ABC. -/
private def ofA : List Record := [[("type", .text "A"), ("bC", .mapping [("x", .int 1)])]]

private def ofAB : List Record := [[("type", .text "AB"), ("c", .mapping [("y", .int 1)])]]

/-- The type that is built first has the object of the plain name. The order shows nowhere else. -/
theorem rebuild_perm_one_base :
    let b := (((start .empty .empty ⟨⟨2020, 1, 10⟩, 0, 0, 0, 0, 0⟩).declareType "A" []).declareType
      "AB" [])
    [ofA, ofAB].Perm [ofAB, ofA] ∧
      (∀ group ∈ [ofA, ofAB], b.site.registry.has (Record.sharedTypeName group) = true) ∧
      ([ofA, ofAB].map Record.sharedTypeName).Nodup ∧
      (b.rebuild [ofA, ofAB]).2.SameUpToNames (b.rebuild [ofAB, ofA]).2 ∧
      (b.rebuild [ofA, ofAB]).2.site.registry.get? "A" = some ⟨ofA.map Value.mapping,
        [("bC", OutputField.plain (.named (.object "ABC"
          [("x", OutputField.plain (.scalar .int))])))]⟩ ∧
      (b.rebuild [ofAB, ofA]).2.site.registry.get? "A" = some ⟨ofA.map Value.mapping,
        [("bC", OutputField.plain (.named (.object "ABC_2"
          [("x", OutputField.plain (.scalar .int))])))]⟩ := by
  intro b
  have perm : [ofA, ofAB].Perm [ofAB, ofA] := List.Perm.swap ofAB ofA []
  have registered : ∀ group ∈ [ofA, ofAB],
      b.site.registry.has (Record.sharedTypeName group) = true := by
    simp only [List.forall_mem_cons]
    exact ⟨rfl, rfl, nofun⟩
  have distinct : ([ofA, ofAB].map Record.sharedTypeName).Nodup := by
    change ["A", "AB"].Nodup
    decide
  have mergedA : Example.ofRecords ofA =
      [("type", .text "A"), ("bC", .mapping [("x", .int 1)])] := by
    simp [ofA, Example.ofRecords, Example.keys, Example.column, Example.merge, Example.mappings,
      Example.observed?, Dictionary.get?, Dictionary.keys, Value.isNull, Value.fields?,
      List.eraseDups, List.eraseDupsBy, List.eraseDupsBy.loop]
  have mergedAB : Example.ofRecords ofAB =
      [("type", .text "AB"), ("c", .mapping [("y", .int 1)])] := by
    simp [ofAB, Example.ofRecords, Example.keys, Example.column, Example.merge, Example.mappings,
      Example.observed?, Dictionary.get?, Dictionary.keys, Value.isNull, Value.fields?,
      List.eraseDups, List.eraseDupsBy, List.eraseDupsBy.loop]
  refine ⟨perm, registered, distinct, (rebuild_perm b perm registered distinct).2.2.2.1, ?_, ?_⟩
  · rw [rebuild_eq registered]
    simp only [Site.inferredAll, Site.inferred, mergedA, mergedAB]
    rfl
  · rw [rebuild_eq fun group hgroup => registered group (perm.mem_iff.mpr hgroup)]
    simp only [Site.inferredAll, Site.inferred, mergedA, mergedAB]
    rfl

end Build
end ContentSchema
