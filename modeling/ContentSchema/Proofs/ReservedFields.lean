import ContentSchema.Proofs.FieldNames

/-! The keys of every record as names of output fields. None of these keys leads to a field itself;
a link key that is one of them without its marker does, under that name. -/
namespace ContentSchema

/-- The sample of a value points at a record of a registered type. -/
def Site.LeadsToType (site : Site) (key : String) (v : Value) : Prop :=
  ∃ first r, sample v = .ok first ∧
    site.store.linked? first (LinkKey.linkedField? key) = .ok (some r) ∧
    site.registry.has (Record.typeName r) = true

namespace OutputFields
section
variable {site : Site} {typeName : String} {x : Visit}

/-- A key that is taken for a link by its name leads to a field exactly when it leads to a
registered type. -/
theorem Visit.isInferred_iff_leadsToType (link : x.isNamedLink site typeName = true) :
    x.isInferred site typeName = true ↔ site.LeadsToType x.key x.value := by
  obtain ⟨unnamed, marked⟩ := unconfigured_of_isNamedLink _ _ link
  rcases linked_or_omitted_of_isNamedLink _ _ link with
    ⟨first, r, sample, pointed, registered, yields⟩ | ⟨none, _, _, left⟩
  · have leads : site.LeadsToType x.key x.value := ⟨first, r, sample, pointed, registered⟩
    simp [isInferred, yields, leads]
  · have leadsNowhere : ¬ site.LeadsToType x.key x.value := by
      rintro ⟨first, r, sample, pointed, registered⟩
      exact none _ (.byKey unnamed marked sample pointed registered)
    simp [isInferred, left, leadsNowhere]

end

theorem isLink_of_mem_excluded : ∀ key ∈ excluded, LinkKey.isLink key = false := by decide

/-- What inference goes through at the root of a record. -/
theorem mem_shown_root {fields : Record} {entry : String × Value} :
    entry ∈ shown none fields ↔ entry ∈ fields ∧ entry.1 ∉ excluded := by
  simp [shown]

/-- A record type has no field under a key that every record has, exactly when no key of its example
does the following: it is not configured, it is a link key, without its marker it is a key that
every record has, and it leads to a registered type. -/
theorem noReservedField_iff (b : Build) (records : List Record) (given : Option Record) :
    ∃ found, (b.outputFields (records.map Value.mapping) none given).1 = .ok found ∧
      ((∀ name ∈ excluded, Dictionary.get? found name = none) ↔
        ∀ key v, (key, v) ∈ given.getD (Example.ofRecords records) →
          Dictionary.get? b.site.config.mapping
            (Record.sharedTypeName records ++ "." ++ key) = none →
          LinkKey.isLink key = true → LinkKey.clean key ∈ excluded →
          ¬ b.site.LeadsToType key v) := by
  let typeName := Record.sharedTypeName records
  let c : Call := ⟨none, given.getD (Example.ofRecords records), b.pass⟩
  refine ⟨c.result b.site typeName, ?run, ?iff⟩
  case run =>
    rw [Build.outputFields_mapping]
    rfl
  simp only [Call.get?_result_eq_none_iff]
  constructor
  case iff.mp =>
    intro none key v hmem unconfigured marked reserved leads
    have visible : (key, v) ∈ shown Option.none c.fields := by
      refine mem_shown_root.mpr ⟨hmem, fun own => ?_⟩
      cases marked.symm.trans (isLink_of_mem_excluded key own)
    obtain ⟨x, hx, rfl, rfl⟩ := exists_mem_steps b.site typeName visible "" c.pass
    have link : x.isNamedLink b.site typeName = true := by
      have root : x.selector = "" := selector_of_mem_steps b.site typeName hx
      have own : x.qualified typeName = typeName ++ "." ++ x.key := by
        rw [Visit.qualified, root]
        rfl
      simp [Visit.isNamedLink, own, typeName, unconfigured, marked]
    have inferred : x ∈ c.inferred b.site typeName :=
      List.mem_filter.mpr ⟨hx, (Visit.isInferred_iff_leadsToType link).mpr leads⟩
    exact none _ reserved x inferred (Visit.fieldName_of_isNamedLink _ _ link)
  case iff.mpr =>
    intro leadsNowhere name reserved x hx same
    obtain ⟨visited, inferred⟩ := List.mem_filter.mp hx
    obtain ⟨hmem, visible⟩ := mem_shown_root.mp (mem_of_mem_steps b.site typeName visited)
    cases link : x.isNamedLink b.site typeName with
    | false =>
      rw [Visit.fieldName_of_not_isNamedLink _ _ link] at same
      exact visible (same ▸ reserved)
    | true =>
      rw [Visit.fieldName_of_isNamedLink _ _ link] at same
      obtain ⟨unconfigured, marked⟩ := Visit.unconfigured_of_isNamedLink _ _ link
      have root : x.selector = "" := selector_of_mem_steps b.site typeName visited
      rw [Visit.qualified, root] at unconfigured
      exact leadsNowhere x.key x.value hmem unconfigured marked (same ▸ reserved)
        ((Visit.isInferred_iff_leadsToType link).mp inferred)

end OutputFields

private def answered : Record :=
  [("id", .text "p"), ("type", .text "Post"), ("parent___NODE", .text "a")]

/-- A post whose parent is linked by a key of its own. It has a field for the parent, although posts
have none for the key that all records have. -/
theorem parent_field_of_link :
    let b := (Build.start (.afterAdding [[("id", .text "a"), ("type", .text "Author")], answered])
      .empty ⟨⟨2020, 1, 10⟩, 0, 0, 0, 0, 0⟩).declareType "Author" []
    (b.outputFields ([answered].map Value.mapping) none none).1 =
      .ok [("parent", OutputField.link "Author" false (.node "parent___NODE" none false))] := by
  intro b
  have own : Example.ofRecords [answered] = answered := by
    refine Example.ofRecords_singleton (by decide) ?_
    simp only [answered, List.forall_mem_cons]
    exact ⟨Example.merge_leaf rfl _, Example.merge_leaf rfl _, Example.merge_leaf rfl _, nofun⟩
  rw [b.outputFields_mapping, Option.getD_none, own]
  rfl

end ContentSchema
