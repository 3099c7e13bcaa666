import ContentSchema.Link.Field
import ContentSchema.Link.Strategy

/-! Which keys are taken for links, when a link can be made, and which field it has. -/
namespace ContentSchema

/-- The strategies in their order, written out. -/
theorem Strategy.choose_eq (convention : MediaType.Convention) (config : Configuration)
    (typeName selector key : String) (v : Value) :
    choose convention config typeName selector key v =
      match Dictionary.get? config.mapping selector with
      | some target => .ok (.configured target)
      | none =>
        if LinkKey.isLink key then .ok .byKey
        else if typeName = fileType then .ok .byShape
        else match Location.isFilePath convention v with
          | .ok true => .ok .byLocation
          | .ok false => .ok .byShape
          | .error e => .error e := by
  unfold choose
  simp only [beq_iff_eq]
  rcases Location.isFilePath convention v with _ | _ | _ <;> rfl

theorem Registry.get_of_has {r : Registry} {name : String} (h : r.has name = true) :
    ∃ type, r.get name = .ok type := by
  unfold Registry.has at h
  unfold Registry.get
  cases found : r.get? name with
  | none =>
    rw [found] at h
    cases h
  | some type => exact ⟨type, rfl⟩

theorem Registry.get_of_not_has {r : Registry} {name : String} (h : r.has name = false) :
    r.get name = .error ⟨name⟩ := by
  unfold Registry.has at h
  unfold Registry.get
  cases found : r.get? name with
  | none => rfl
  | some type =>
    rw [found] at h
    cases h

theorem Site.configuredLink_eq_ok_iff {site : Site} {selector key target : String} {v : Value}
    {f : OutputField} :
    site.configuredLink selector key target v = .ok f ↔
      site.registry.has target = true ∧
        .link target v.items?.isSome (.mapping key target v.items?.isSome) = f := by
  unfold Site.configuredLink
  cases h : site.registry.has target with
  | true =>
    obtain ⟨type, found⟩ := Registry.get_of_has h
    simp [found]
  | false => simp [Registry.get_of_not_has h]

theorem Site.locationLink_eq_ok_iff {site : Site} {key : String} {f : OutputField} :
    site.locationLink key = .ok f ↔
      site.registry.has fileType = true ∧ .link fileType false (.file key) = f := by
  unfold Site.locationLink
  cases h : site.registry.has fileType with
  | true =>
    obtain ⟨type, found⟩ := Registry.get_of_has h
    simp [found]
  | false => simp [Registry.get_of_not_has h]

private theorem mapError_error {ε δ α : Type} (g : ε → δ) (e : ε) :
    (.error e : Except ε α).mapError g = .error (g e) := rfl

private theorem mapError_ok {ε δ α : Type} (g : ε → δ) (a : α) :
    (.ok a : Except ε α).mapError g = .ok a := rfl

theorem Site.keyLink_eq_ok_iff {site : Site} {key : String} {v : Value} {f : OutputField} :
    site.keyLink key v = .ok f ↔
      ∃ first r, Site.sample v = .ok first ∧
        site.store.linked? first (LinkKey.linkedField? key) = .ok (some r) ∧
        site.registry.has (Record.typeName r) = true ∧
        .link (Record.typeName r) v.items?.isSome
          (.node key (LinkKey.linkedField? key) v.items?.isSome) = f := by
  unfold Site.keyLink
  simp only [bind, Except.bind]
  cases Site.sample v with
  | error e => simp
  | ok first =>
    simp only
    cases hp : site.store.linked? first (LinkKey.linkedField? key) with
    | error e => simp [mapError_error, hp]
    | ok found =>
      cases found with
      | none => simp [mapError_ok, throw, throwThe, MonadExceptOf.throw, hp]
      | some r =>
        cases h : site.registry.has (Record.typeName r) with
        | true =>
          obtain ⟨type, got⟩ := Registry.get_of_has h
          simp [mapError_ok, got, pure, Except.pure, hp, h]
        | false =>
          simp [mapError_ok, Registry.get_of_not_has h, throw, throwThe, MonadExceptOf.throw,
            hp, h]

end ContentSchema
