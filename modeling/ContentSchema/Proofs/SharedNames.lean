import ContentSchema.Build
import ContentSchema.Proofs.FilterPositions
import ContentSchema.Proofs.OutputPositions

/-! When two types of one result share a name. -/
namespace ContentSchema

/-- Two generated types of one result share a name exactly when the texts of their positions agree,
for filters together with the endings of their names. -/
theorem sharedName_iff_sameSelector (store : Store) (config : Configuration)
    (now : Calendar.DateTime) (convention : MediaType.Convention) (records : List Record) :
    (∀ selector given, ∃ fields,
      ((Build.start store config now convention).outputFields (records.map Value.mapping) selector
          given).1 = .ok fields ∧
      ∀ p q a b, OutputFields.ObjectBelow fields p a → OutputFields.ObjectBelow fields q b →
        (a = b ↔ OutputFields.selectorAt (selector.getD "") p =
          OutputFields.selectorAt (selector.getD "") q)) ∧
    ∀ place given path, ∃ filters,
      ((Build.start store config now convention).filterFields (records.map Value.mapping) place
          given path).1 = .ok filters ∧
      ∀ p q a b f g, FilterFields.FilterBelow filters p a f → FilterFields.FilterBelow filters q b g →
        (a = b ↔ FilterFields.pathAt "" p = FilterFields.pathAt "" q ∧
          FilterFields.endingOf f = FilterFields.endingOf g) := by
  constructor
  · intro selector given
    obtain ⟨fields, hfields⟩ := Example.exists_ofEntries records given
    obtain ⟨typeName, htype⟩ := exists_typeNameOf records
    refine ⟨(OutputFields.ofExample (Build.start store config now convention).site typeName selector
      fields ⟨.empty, []⟩).1, ?_, fun p q a b hp hq => ?_⟩
    · unfold Build.outputFields
      rw [hfields, htype]
      rfl
    · exact OutputFields.name_eq_iff_selectorAt_eq _ typeName selector fields Namer.faithful_empty
        hp hq
  · intro place given path
    obtain ⟨filters, after, start, heq, faithful, named⟩ :=
      FilterFields.answer?_of_filterBelow records place given path Namer.faithful_empty
    refine ⟨filters, ?_, fun p q a b f g hp hq => ?_⟩
    · have run : ((FilterFields.ofEntries (records.map Value.mapping) place given path).run .empty).1 =
          .ok filters := congrArg Prod.fst heq
      exact run
    · rw [faithful.answer?_eq_iff (named p a f hp) (named q b g hq)]
      rw [FilterFields.append_ending_inj, String.append_right_inj]

/-- A key with a dot reads like two keys. The objects under both, and their filters, are different
types of one name. -/
theorem sharedName_of_dotted_key :
    (∃ fields, ((Build.start .empty .empty ⟨⟨2020, 1, 10⟩, 0, 0, 0, 0, 0⟩).outputFields
        ([[("type", .text "T"), ("a.b", .mapping [("x", .int 1)]),
          ("a", .mapping [("b", .mapping [("y", .int 1)])])]].map Value.mapping) none none).1 =
        .ok fields ∧
      OutputFields.ObjectBelow fields [.key "a.b"] "TAB" ∧
      OutputFields.ObjectBelow fields [.key "a", .key "b"] "TAB") ∧
    ∃ filters f g, ((Build.start .empty .empty ⟨⟨2020, 1, 10⟩, 0, 0, 0, 0, 0⟩).filterFields
        ([[("type", .text "T"), ("a.b", .mapping [("x", .int 1)]),
          ("a", .mapping [("b", .mapping [("y", .int 1)])])]].map Value.mapping)
        (.nested "T") none none).1 = .ok filters ∧
      FilterFields.FilterBelow filters [.key "a.b"] "TABInputObject" f ∧
      FilterFields.FilterBelow filters [.key "a", .key "b"] "TABInputObject" g := by
  have merged : Example.ofEntries ([[("type", .text "T"), ("a.b", .mapping [("x", .int 1)]),
      ("a", .mapping [("b", .mapping [("y", .int 1)])])]].map Value.mapping) none =
      .ok [("type", .text "T"), ("a.b", .mapping [("x", .int 1)]),
        ("a", .mapping [("b", .mapping [("y", .int 1)])])] := by
    rw [Example.ofEntries, Record.listOf_mapping]
    simp [Except.map, Example.ofRecords, Example.keys, Example.column, Example.merge,
      Example.mappings, Example.observed?, Dictionary.get?, Dictionary.keys, Value.isNull,
      Value.fields?, List.eraseDups, List.eraseDupsBy, List.eraseDupsBy.loop]
  constructor
  · refine ⟨[("a.b", OutputField.plain (.named (.object "TAB"
        [("x", OutputField.plain (.scalar .int))]))),
      ("a", OutputField.plain (.named (.object "TA" [("b", OutputField.plain (.named (.object "TAB"
        [("y", OutputField.plain (.scalar .int))])))])))], ?_, ?_, ?_⟩
    · rw [Build.outputFields, merged]
      rfl
    · exact ⟨_, _, _, rfl, rfl, .here⟩
    · exact ⟨_, _, _, rfl, rfl, .key rfl .here⟩
  · refine ⟨[("type", FilterFields.input "TTypeQueryString" (FilterFields.operators .text)),
      ("a.b", FilterFields.input "TABInputObject"
        [("x", FilterFields.input "TABXQueryNumber" (FilterFields.operators .integer))]),
      ("a", FilterFields.input "TAInputObject" [("b", FilterFields.input "TABInputObject"
        [("y", FilterFields.input "TABYQueryNumber" (FilterFields.operators .integer))])])],
      [("x", FilterFields.input "TABXQueryNumber" (FilterFields.operators .integer))],
      [("y", FilterFields.input "TABYQueryNumber" (FilterFields.operators .integer))], ?_, ?_, ?_⟩
    · rw [Build.filterFields, FilterFields.ofEntries, merged]
      rfl
    · refine ⟨_, _, _, rfl, rfl, .here ?_⟩
      intro key f enumName values found heq
      cases List.mem_singleton.mp (Dictionary.mem_of_get? found)
      cases heq
    · refine ⟨_, _, _, rfl, rfl, .key rfl (.here ?_)⟩
      intro key f enumName values found heq
      cases List.mem_singleton.mp (Dictionary.mem_of_get? found)
      cases heq

end ContentSchema
