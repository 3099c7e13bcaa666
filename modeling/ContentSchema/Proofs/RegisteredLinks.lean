import ContentSchema.Proofs.OutputRun
import ContentSchema.Proofs.RegisteredNames
import ContentSchema.Proofs.TypeRenaming
import ContentSchema.Proofs.VisitedKeys

/-! Inference makes links to registered record types only, at any depth of a field and in its
arguments. -/
namespace ContentSchema

namespace OutputFields
section
variable (site : Site)

/-- The links of a field, and those inside its type, lead to registered record types. -/
def Registered (f : OutputField) : Prop := ∀ target ∈ f.links, site.registry.has target = true

theorem links_plain (t : LinkedType) : (OutputField.plain t).links = t.links := by
  rw [Field.links, OutputField.plain, SchemaType.linksOfArguments, List.append_nil]

theorem links_link (target : String) (isList : Bool) (resolver : Resolver) :
    (OutputField.link target isList resolver).links = [target] := by
  cases isList <;>
    simp [Field.links, OutputField.link, SchemaType.links, SchemaType.linksOfArguments]

theorem links_scalarField? {fieldName : String} {v : Value} {f : OutputField}
    (h : scalarField? fieldName v = some f) : f.links = [] := by
  unfold scalarField? at h
  split at h
  · cases h
    simp [Field.links, dateArguments, SchemaType.links, SchemaType.linksOfArguments]
  · obtain ⟨s, _, rfl⟩ := Option.map_eq_some_iff.mp h
    rw [links_plain, SchemaType.links]

theorem registered_link {typeName selector key : String} {v : Value} {field : String × OutputField}
    (h : linkOf? site typeName selector key v = some (.ok field)) : Registered site field.2 := by
  let x : Visit := ⟨selector, key, v, ⟨.empty, []⟩⟩
  intro target inside
  cases (x.links_iff site typeName field).mpr h with
  | configured named registered =>
    rw [links_link, List.mem_singleton] at inside
    exact inside ▸ registered
  | byKey unnamed marked sample pointed registered =>
    rw [links_link, List.mem_singleton] at inside
    exact inside ▸ registered
  | byLocation unnamed unmarked noFile path registered =>
    rw [links_link, List.mem_singleton] at inside
    exact inside ▸ registered

theorem run_registered (typeName : String) :
    (∀ selector fieldName v pass, ∀ f,
      (ofValue site typeName selector fieldName v pass).1 = some f → Registered site f) ∧
    ∀ selector fields pass, ∀ key f,
      (key, f) ∈ (ofFields site typeName selector fields pass).1 → Registered site f := by
  refine run_induction site typeName
    (P := fun _ _ _ _ found _ => ∀ f, found = some f → Registered site f)
    (Q := fun _ _ _ found _ => ∀ key f, (key, f) ∈ found → Registered site f)
    ?sequence ?empty ?single ?noField ?object ?nil ?failed ?linked ?untyped ?typed
  case sequence =>
    intro _ _ _ _ _ _ found _ _ ih f hf target inside
    obtain ⟨inner, hinner, rfl⟩ := Option.map_eq_some_iff.mp hf
    rw [links_plain, SchemaType.links] at inside
    exact ih inner hinner target (List.mem_append_left _ inside)
  case empty => exact fun _ _ _ _ _ => nofun
  case single =>
    intro _ _ _ _ _ _ f hf target inside
    rw [links_scalarField? hf] at inside
    cases inside
  case noField => exact fun _ _ _ _ _ _ => nofun
  case object =>
    intro _ _ _ _ found _ ih _ f hf target inside
    cases hf
    rw [links_plain, SchemaType.links, SchemaType.mem_linksOfFields] at inside
    obtain ⟨key, g, hmem, deeper⟩ := inside
    exact ih key g (Dictionary.mem_of_mem_ofList hmem) target deeper
  case nil => exact fun _ _ => nofun
  case failed => exact fun _ _ _ _ _ _ _ _ _ ih => ih
  case linked =>
    intro _ _ _ _ _ field _ _ link ih key f hmem
    rcases List.mem_cons.mp hmem with heq | hmem
    · cases heq
      exact registered_link site link
    · exact ih key f hmem
  case untyped => exact fun _ _ _ _ _ _ _ _ _ _ ih => ih
  case typed =>
    intro _ _ _ _ _ g _ _ _ _ ihv ih key f hmem
    rcases List.mem_cons.mp hmem with heq | hmem
    · cases heq
      exact ihv _ rfl
    · exact ih key f hmem

end
end OutputFields

namespace Build

/-- Inference leaves the site as it is. The fields that it finds have distinct names and are linked
to registered record types. -/
theorem outputFields_registered (b : Build) (entries : List Value) (selector : Option String)
    (given : Option Record) :
    (b.outputFields entries selector given).2.site = b.site ∧
      ∀ fields, (b.outputFields entries selector given).1 = .ok fields →
        (Dictionary.keys fields).Nodup ∧
          ∀ key f, (key, f) ∈ fields → OutputFields.Registered b.site f := by
  refine ⟨b.site_outputFields entries selector given, fun fields found => ?_⟩
  obtain ⟨typeName, shown, -, rfl, -⟩ := exists_run_of_outputFields found
  have run := (OutputFields.run_registered b.site typeName).2
  exact ⟨Dictionary.nodup_keys_ofList _,
    fun key f hmem => run _ _ _ key f (Dictionary.mem_of_mem_ofList hmem)⟩

end Build
end ContentSchema
