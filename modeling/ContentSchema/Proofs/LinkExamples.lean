import ContentSchema.Proofs.LinkFields
import ContentSchema.Proofs.StoredLinks

/-! Links read on the examples from which they were made. A link gives the record that its example
was found to point at, unless the example counts as missing. -/
namespace ContentSchema

/-- In order only with what additions left in it. -/
def Store.Filled (s : Store) : Prop := s.fault = none → ∃ records, s = .afterAdding records

theorem Store.Filled.consistent_of_linked? {s : Store} (filled : s.Filled) {v : Value}
    {linkedField : Option String} {r : Option Record} (h : s.linked? v linkedField = .ok r) :
    s.Consistent := by
  have working : s.fault = none := by
    cases fault : s.fault with
    | none => rfl
    | some text =>
      unfold linked? node? nodes at h
      rw [fault] at h
      cases linked : linkedField.filter fun field => !field.isEmpty <;> rw [linked] at h <;> cases h
  obtain ⟨records, rfl⟩ := filled working
  exact consistent_additions records

/-- Whether a link on a value gives a record: alone, or as the first of those of a sequence. -/
def Query.LeadsTo (r : Record) (v : Value) (outcome : Except ResolveError Value) : Prop :=
  match v.items? with
  | none => outcome = .ok (.mapping r)
  | some _ => ∃ rest, outcome = .ok (.list (.mapping r :: rest))

/-- A link on a value leads to the record that the first value leads to, as long as the value does not
count as missing. -/
theorem Query.leadsTo_followed_iff {look : Value → Option Record} {v first : Value} {r : Record}
    (sample : Site.sample v = .ok first) (found : look first = some r) :
    LeadsTo r v (followed look v.items?.isSome v) ↔ v.isTruthy = true := by
  unfold followed LeadsTo
  constructor
  · intro leads
    cases truthy : v.isTruthy with
    | true => rfl
    | false =>
      rw [truthy] at leads
      cases items : v.items? with
      | none =>
        rw [items] at leads
        cases leads
      | some _ =>
        rw [items] at leads
        obtain ⟨_, leads⟩ := leads
        cases leads
  · intro truthy
    unfold Site.sample at sample
    rw [truthy]
    cases items : v.items? with
    | none =>
      rw [items] at sample
      cases sample
      simp [found, Value.ofRecord?]
    | some members =>
      rw [items] at sample
      cases members with
      | nil => cases sample
      | cons head rest =>
        cases sample
        have follows : members? v = some (first :: rest) := by
          cases v with
          | list _ =>
            cases items
            rfl
          | tuple _ =>
            cases items
            rfl
          | _ => cases items
        simp [follows, found]

/-- A link that is made from an example gives, on the same value, the record that the example was
found to point at, exactly when the value does not count as missing. -/
theorem leadsTo_example_iff {site : Site} (filled : site.store.Filled) {key : String} {v : Value}
    {f : OutputField} (made : site.keyLink key v = .ok f) :
    ∃ first r resolver, Site.sample v = .ok first ∧
      site.store.linked? first (LinkKey.linkedField? key) = .ok (some r) ∧
      f.resolver = some resolver ∧
      ∀ (b : Build) (source : Record) (args : Value) (path : Option String),
        b.site.store = site.store → Record.get source key = v →
        (Query.LeadsTo r v (b.resolve resolver source args path).1 ↔ v.isTruthy = true) := by
  obtain ⟨first, r, sample, linked, _, rfl⟩ := Site.keyLink_eq_ok_iff.mp made
  refine ⟨first, r, _, sample, linked, rfl, fun b source args path same value => ?_⟩
  have consistent := filled.consistent_of_linked? linked
  rw [Store.linked?_eq_ok consistent.working] at linked
  rw [← same] at consistent linked
  rw [Build.resolve_link consistent rfl, Store.read, value]
  exact Query.leadsTo_followed_iff sample (Except.ok.inj linked)

/-- In a list, zero leads to the record whose identifier it is. -/
theorem leadsTo_example_iff_list_of_zero :
    let b := (Build.start (.afterAdding [[("id", .int 0), ("type", .text "T")]]) .empty
      ⟨⟨2020, 1, 10⟩, 0, 0, 0, 0, 0⟩).declareType "T" []
    b.site.store.Filled ∧
      b.site.keyLink "owner___NODE" (.list [.int 0]) =
        .ok (.link "T" true (.node "owner___NODE" none true)) ∧
      Query.LeadsTo [("id", .int 0), ("type", .text "T")] (.list [.int 0])
        (b.resolve (.node "owner___NODE" none true) [("owner___NODE", .list [.int 0])] (.mapping [])
          none).1 := by
  intro b
  have filled : b.site.store.Filled := fun _ => ⟨_, rfl⟩
  have made : b.site.keyLink "owner___NODE" (.list [.int 0]) =
      .ok (.link "T" true (.node "owner___NODE" none true)) := by rfl
  obtain ⟨first, r, resolver, sample, linked, attached, leads⟩ := leadsTo_example_iff filled made
  cases sample
  cases linked
  cases attached
  exact ⟨filled, made, (leads b _ _ _ rfl rfl).mpr rfl⟩

/-- By itself, zero counts as missing. The link that is made from it gives nothing, although there
is a record with that identifier. -/
theorem zero_example_leads_nowhere :
    let b := (Build.start (.afterAdding [[("id", .int 0), ("type", .text "T")]]) .empty
      ⟨⟨2020, 1, 10⟩, 0, 0, 0, 0, 0⟩).declareType "T" []
    b.site.keyLink "owner___NODE" (.int 0) =
        .ok (.link "T" false (.node "owner___NODE" none false)) ∧
      b.site.store.linked? (.int 0) (LinkKey.linkedField? "owner___NODE") =
        .ok (some [("id", .int 0), ("type", .text "T")]) ∧
      (b.resolve (.node "owner___NODE" none false) [("owner___NODE", .int 0)] (.mapping [])
        none).1 = .ok .null :=
  ⟨rfl, rfl, rfl⟩

end ContentSchema
