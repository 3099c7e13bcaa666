import ContentSchema.Build

/-! Runs of output inference: what happens to one value and to one key, and the induction over
both. -/
namespace ContentSchema.OutputFields

/-- What makes a key a link, or fails to: nothing when the shape of the value decides. -/
def linkOf? (site : Site) (typeName selector key : String) (v : Value) :
    Option (Except LinkFailure (String × OutputField)) :=
  match Strategy.choose site.convention site.config typeName
      (typeName ++ "." ++ childSelector selector key) key v with
  | .error e => some (.error (.location e))
  | .ok (.configured target) =>
    some ((site.configuredLink (typeName ++ "." ++ childSelector selector key) key target v).map
      fun f => (key, f))
  | .ok .byKey => some ((site.keyLink key v).map fun f => (LinkKey.clean key, f))
  | .ok .byLocation => some ((site.locationLink key).map fun f => (key, f))
  | .ok .byShape => none

theorem linkOf?_eq_none_iff {site : Site} {typeName selector key : String} {v : Value} :
    linkOf? site typeName selector key v = none ↔
      Strategy.choose site.convention site.config typeName
        (typeName ++ "." ++ childSelector selector key) key v =
        .ok .byShape := by
  unfold linkOf?
  split <;> simp_all

section
variable (site : Site) (typeName selector fieldName key : String) (pass : Pass)

theorem ofValue_sequence {w head : Value} {rest : List Value} (h : w.items? = some (head :: rest)) :
    ofValue site typeName selector fieldName w pass =
      ((ofValue site typeName selector fieldName head pass).1.map fun f => .plain (.list f.type),
        (ofValue site typeName selector fieldName head pass).2) := by
  cases w with
  | list items =>
    cases h
    rw [ofValue]
    rfl
  | tuple items =>
    cases h
    rw [ofValue]
    rfl
  | _ => cases h

theorem ofValue_empty {w : Value} (h : w.items? = some []) :
    ofValue site typeName selector fieldName w pass = (none, pass) := by
  cases w with
  | list items =>
    cases h
    rw [ofValue]
    rfl
  | tuple items =>
    cases h
    rw [ofValue]
    rfl
  | _ => cases h

theorem ofValue_single {w : Value} (noSequence : w.items? = none) (noMapping : w.fields? = none) :
    ofValue site typeName selector fieldName w pass = (scalarField? fieldName w, pass) := by
  cases w with
  | list _ => cases noSequence
  | tuple _ => cases noSequence
  | mapping _ => cases noMapping
  | _ =>
    simp only [ofValue]
    rfl

theorem ofValue_mapping (fields : List (String × Value)) :
    ofValue site typeName selector fieldName (.mapping fields) pass =
      match ofFields site typeName selector fields pass with
      | ([], after) => (none, after)
      | (found, after) =>
        (some (.plain (.named (.object
          (after.namer.nameFor (typeName ++ "." ++ selector) none).1 (Dictionary.ofList found)))),
          { after with namer := (after.namer.nameFor (typeName ++ "." ++ selector) none).2 }) := by
  rw [ofValue]
  simp only [bind, StateT.bind]
  obtain ⟨found, after⟩ := ofFields site typeName selector fields pass
  cases found <;> rfl

theorem ofFields_cons (v : Value) (rest : List (String × Value)) :
    ofFields site typeName selector ((key, v) :: rest) pass =
      match linkOf? site typeName selector key v with
      | some (.error e) =>
        ofFields site typeName selector rest { pass with
          warnings := pass.warnings ++ [e.warning (typeName ++ "." ++ childSelector selector key)] }
      | some (.ok field) =>
        (field :: (ofFields site typeName selector rest pass).1,
          (ofFields site typeName selector rest pass).2)
      | none => match ofValue site typeName (childSelector selector key) key v pass with
        | (none, between) => ofFields site typeName selector rest between
        | (some f, between) =>
          ((key, f) :: (ofFields site typeName selector rest between).1,
            (ofFields site typeName selector rest between).2) := by
  rw [ofFields]
  unfold linkOf?
  simp only
  cases Strategy.choose site.convention site.config typeName
      (typeName ++ "." ++ childSelector selector key) key v with
  | error e => rfl
  | ok s =>
    cases s with
    | configured target =>
      simp only
      cases site.configuredLink (typeName ++ "." ++ childSelector selector key) key target v <;> rfl
    | byKey =>
      simp only
      cases site.keyLink key v <;> rfl
    | byLocation =>
      simp only
      cases site.locationLink key <;> rfl
    | byShape =>
      simp only [bind, StateT.bind]
      obtain ⟨found, between⟩ := ofValue site typeName (childSelector selector key) key v pass
      cases found <;> rfl

end

section
variable {site : Site} {typeName selector fieldName key : String} {pass after between : Pass}
  {fields rest : List (String × Value)} {v : Value}

theorem ofValue_of_noField (inner : ofFields site typeName selector fields pass = ([], after)) :
    ofValue site typeName selector fieldName (.mapping fields) pass = (none, after) := by
  rw [ofValue_mapping, inner]

theorem ofValue_of_fields {found : List (String × OutputField)}
    (inner : ofFields site typeName selector fields pass = (found, after)) (some : found ≠ []) :
    ofValue site typeName selector fieldName (.mapping fields) pass =
      (.some (.plain (.named (.object
        (after.namer.nameFor (typeName ++ "." ++ selector) none).1 (Dictionary.ofList found)))),
        { after with namer := (after.namer.nameFor (typeName ++ "." ++ selector) none).2 }) := by
  rw [ofValue_mapping, inner]
  cases found with
  | nil => exact absurd rfl some
  | cons field found => rfl

theorem ofFields_of_failed {e : LinkFailure}
    (link : linkOf? site typeName selector key v = some (.error e)) :
    ofFields site typeName selector ((key, v) :: rest) pass =
      ofFields site typeName selector rest { pass with
        warnings := pass.warnings ++ [e.warning (typeName ++ "." ++ childSelector selector key)] } := by
  rw [ofFields_cons, link]

theorem ofFields_of_linked {field : String × OutputField}
    (link : linkOf? site typeName selector key v = some (.ok field)) :
    ofFields site typeName selector ((key, v) :: rest) pass =
      (field :: (ofFields site typeName selector rest pass).1,
        (ofFields site typeName selector rest pass).2) := by
  rw [ofFields_cons, link]

theorem ofFields_of_untyped (link : linkOf? site typeName selector key v = none)
    (inner : ofValue site typeName (childSelector selector key) key v pass = (none, between)) :
    ofFields site typeName selector ((key, v) :: rest) pass =
      ofFields site typeName selector rest between := by
  rw [ofFields_cons, link]
  simp only [inner]

theorem ofFields_of_typed {f : OutputField} (link : linkOf? site typeName selector key v = none)
    (inner : ofValue site typeName (childSelector selector key) key v pass = (some f, between)) :
    ofFields site typeName selector ((key, v) :: rest) pass =
      ((key, f) :: (ofFields site typeName selector rest between).1,
        (ofFields site typeName selector rest between).2) := by
  rw [ofFields_cons, link]
  simp only [inner]

end

/-- The record type only matters to values that lead to an object. -/
theorem ofValue_of_not_leadsToObject (site : Site) (typeName other selector fieldName : String)
    {v : Value} (h : leadsToObject v = false) (pass : Pass) :
    ofValue site typeName selector fieldName v pass =
      ofValue site other selector fieldName v pass := by
  induction v using leadsToObject.induct with
  | case1 fields => cases h
  | case2 head rest ih =>
    have first (t : String) := ofValue_sequence site t selector fieldName pass
      (w := .list (head :: rest)) rfl
    rw [first, first, ih h]
  | case3 head rest ih =>
    have first (t : String) := ofValue_sequence site t selector fieldName pass
      (w := .tuple (head :: rest)) rfl
    rw [first, first, ih h]
  | case4 v noMapping noList noTuple =>
    cases v with
    | mapping fields => exact (noMapping fields rfl).elim
    | list items =>
      cases items with
      | nil => simp only [ofValue_empty site _ selector fieldName pass (w := .list []) rfl]
      | cons head rest => exact (noList head rest rfl).elim
    | tuple items =>
      cases items with
      | nil => simp only [ofValue_empty site _ selector fieldName pass (w := .tuple []) rfl]
      | cons head rest => exact (noTuple head rest rfl).elim
    | _ => simp only [ofValue]

private theorem eq_link_of_keyLink {site : Site} {key : String} {v : Value} {f : OutputField}
    (h : site.keyLink key v = .ok f) :
    ∃ target isList resolver, f = OutputField.link target isList resolver := by
  simp only [Site.keyLink, bind, Except.bind, pure, Except.pure, throw, throwThe, MonadExceptOf.throw]
    at h
  split at h
  · cases h
  · split at h
    · cases h
    · split at h
      · cases h
      · split at h
        · cases h
          exact ⟨_, _, _, rfl⟩
        · cases h

/-- A link field has no type of its own. -/
theorem eq_link_of_linkOf? {site : Site} {typeName selector key : String} {v : Value}
    {field : String × OutputField}
    (h : linkOf? site typeName selector key v = some (.ok field)) :
    ∃ target isList resolver, field.2 = OutputField.link target isList resolver := by
  unfold linkOf? at h
  split at h
  · cases h
  · simp only [Option.some.injEq, Site.configuredLink] at h
    split at h
    · cases h
      exact ⟨_, _, _, rfl⟩
    · cases h
  · simp only [Option.some.injEq] at h
    cases hlink : site.keyLink key v with
    | error e =>
      rw [hlink] at h
      cases h
    | ok f =>
      rw [hlink] at h
      cases h
      exact eq_link_of_keyLink hlink
  · simp only [Option.some.injEq, Site.locationLink] at h
    split at h
    · cases h
      exact ⟨_, _, _, rfl⟩
    · cases h
  · cases h

section
variable (site : Site) (typeName : String)
variable {P : String → String → Value → Pass → Option OutputField → Pass → Prop}
variable {Q : String → List (String × Value) → Pass → List (String × OutputField) → Pass → Prop}

/-- Induction over runs. `P` speaks of a value, `Q` of the fields of a mapping; both of the state
before, of what is found and of the state after. -/
theorem run_induction
    (sequence : ∀ selector fieldName w head rest pass found after,
      w.items? = some (head :: rest) → P selector fieldName head pass found after →
      P selector fieldName w pass (found.map fun f => .plain (.list f.type)) after)
    (empty : ∀ selector fieldName w pass, w.items? = some [] → P selector fieldName w pass none pass)
    (single : ∀ selector fieldName w pass, w.items? = none → w.fields? = none →
      P selector fieldName w pass (scalarField? fieldName w) pass)
    (noField : ∀ selector fieldName fields pass after, Q selector fields pass [] after →
      P selector fieldName (.mapping fields) pass none after)
    (object : ∀ selector fieldName fields pass found after, Q selector fields pass found after →
      found ≠ [] →
      P selector fieldName (.mapping fields) pass
        (some (.plain (.named (.object
          (after.namer.nameFor (typeName ++ "." ++ selector) none).1 (Dictionary.ofList found)))))
        { after with namer := (after.namer.nameFor (typeName ++ "." ++ selector) none).2 })
    (nil : ∀ selector pass, Q selector [] pass [] pass)
    (failed : ∀ selector key v rest pass e found after,
      linkOf? site typeName selector key v = some (.error e) →
      Q selector rest { pass with
        warnings := pass.warnings ++ [e.warning (typeName ++ "." ++ childSelector selector key)] }
        found after →
      Q selector ((key, v) :: rest) pass found after)
    (linked : ∀ selector key v rest pass field found after,
      linkOf? site typeName selector key v = some (.ok field) → Q selector rest pass found after →
      Q selector ((key, v) :: rest) pass (field :: found) after)
    (untyped : ∀ selector key v rest pass between found after,
      linkOf? site typeName selector key v = none →
      P (childSelector selector key) key v pass none between → Q selector rest between found after →
      Q selector ((key, v) :: rest) pass found after)
    (typed : ∀ selector key v rest pass f between found after,
      linkOf? site typeName selector key v = none →
      P (childSelector selector key) key v pass (some f) between →
      Q selector rest between found after →
      Q selector ((key, v) :: rest) pass ((key, f) :: found) after) :
    (∀ selector fieldName v pass, P selector fieldName v pass
      (ofValue site typeName selector fieldName v pass).1
      (ofValue site typeName selector fieldName v pass).2) ∧
    ∀ selector fields pass, Q selector fields pass
      (ofFields site typeName selector fields pass).1
      (ofFields site typeName selector fields pass).2 := by
  have cons (selector key : String) (v : Value) (rest : List (String × Value))
      (hrest : ∀ pass, Q selector rest pass (ofFields site typeName selector rest pass).1
        (ofFields site typeName selector rest pass).2)
      (hv : linkOf? site typeName selector key v = none → ∀ pass,
        P (childSelector selector key) key v pass
          (ofValue site typeName (childSelector selector key) key v pass).1
          (ofValue site typeName (childSelector selector key) key v pass).2) (pass : Pass) :
      Q selector ((key, v) :: rest) pass
        (ofFields site typeName selector ((key, v) :: rest) pass).1
        (ofFields site typeName selector ((key, v) :: rest) pass).2 := by
    rw [ofFields_cons]
    cases hlink : linkOf? site typeName selector key v with
    | some outcome =>
      cases outcome with
      | error e => exact failed _ _ _ _ _ _ _ _ hlink (hrest _)
      | ok field => exact linked _ _ _ _ _ _ _ _ hlink (hrest pass)
    | none =>
      have inner := hv hlink pass
      revert inner
      rcases ofValue site typeName (childSelector selector key) key v pass with ⟨_ | f, between⟩
      · intro inner
        exact untyped _ _ _ _ _ _ _ _ hlink inner (hrest between)
      · intro inner
        exact typed _ _ _ _ _ _ _ _ _ hlink inner (hrest between)
  refine ofValue.mutual_induct site typeName
    (fun selector fieldName v => ∀ pass, P selector fieldName v pass
      (ofValue site typeName selector fieldName v pass).1
      (ofValue site typeName selector fieldName v pass).2)
    (fun selector fields => ∀ pass, Q selector fields pass
      (ofFields site typeName selector fields pass).1
      (ofFields site typeName selector fields pass).2)
    ?list ?tuple ?emptyList ?emptyTuple ?mapping ?other ?noKeys ?unreadable ?configured ?byKey
    ?byLocation ?byShape
  case list =>
    intro selector fieldName head rest ih pass
    rw [ofValue_sequence site typeName selector fieldName pass rfl]
    exact sequence _ _ _ _ _ _ _ _ rfl (ih pass)
  case tuple =>
    intro selector fieldName head rest ih pass
    rw [ofValue_sequence site typeName selector fieldName pass rfl]
    exact sequence _ _ _ _ _ _ _ _ rfl (ih pass)
  case emptyList =>
    intro selector fieldName pass
    rw [ofValue_empty site typeName selector fieldName pass rfl]
    exact empty _ _ _ _ rfl
  case emptyTuple =>
    intro selector fieldName pass
    rw [ofValue_empty site typeName selector fieldName pass rfl]
    exact empty _ _ _ _ rfl
  case mapping =>
    intro selector fieldName fields ih pass
    have inner := ih pass
    rw [ofValue_mapping]
    revert inner
    rcases ofFields site typeName selector fields pass with ⟨_ | ⟨field, found⟩, after⟩
    · exact noField _ _ _ _ _
    · exact fun inner => object _ _ _ _ _ _ inner (List.cons_ne_nil _ _)
  case other =>
    intro selector fieldName v noList noTuple noEmptyList noEmptyTuple noMapping pass
    have plain : v.items? = none ∧ v.fields? = none := by
      cases v with
      | list items =>
        cases items with
        | nil => exact absurd rfl noEmptyList
        | cons head rest => exact absurd rfl (noList head rest)
      | tuple items =>
        cases items with
        | nil => exact absurd rfl noEmptyTuple
        | cons head rest => exact absurd rfl (noTuple head rest)
      | mapping fields => exact absurd rfl (noMapping fields)
      | _ => exact ⟨rfl, rfl⟩
    rw [ofValue_single site typeName selector fieldName pass plain.1 plain.2]
    exact single _ _ _ _ plain.1 plain.2
  case noKeys =>
    intro selector pass
    exact nil selector pass
  case unreadable =>
    intro selector key v rest inner qualified e choice ih
    refine cons selector key v rest ih fun none => ?_
    cases choice.symm.trans (linkOf?_eq_none_iff.mp none)
  case configured =>
    intro selector key v rest inner qualified target choice ih
    refine cons selector key v rest ih fun none => ?_
    cases choice.symm.trans (linkOf?_eq_none_iff.mp none)
  case byKey =>
    intro selector key v rest inner qualified choice ih
    refine cons selector key v rest ih fun none => ?_
    cases choice.symm.trans (linkOf?_eq_none_iff.mp none)
  case byLocation =>
    intro selector key v rest inner qualified choice ih
    refine cons selector key v rest ih fun none => ?_
    cases choice.symm.trans (linkOf?_eq_none_iff.mp none)
  case byShape =>
    intro selector key v rest inner qualified choice ih ihv
    exact cons selector key v rest ih fun _ => ihv

end
end ContentSchema.OutputFields

namespace ContentSchema.Build
variable (b : Build) (entries : List Value) (selector : Option String) (given : Option Record)

theorem site_outputFields : (b.outputFields entries selector given).2.site = b.site := by
  unfold outputFields
  cases Example.ofEntries entries given with
  | error e => rfl
  | ok fields => cases typeNameOf entries <;> rfl

variable {b entries selector given}

/-- The fields that are found are those of one run, which the names and warnings are left by. -/
theorem exists_run_of_outputFields {fields : Dictionary OutputField}
    (h : (b.outputFields entries selector given).1 = .ok fields) :
    ∃ typeName shown, typeNameOf entries = .ok typeName ∧
      fields = Dictionary.ofList
        (OutputFields.ofFields b.site typeName (selector.getD "") shown b.pass).1 ∧
      (b.outputFields entries selector given).2.pass =
        (OutputFields.ofFields b.site typeName (selector.getD "") shown b.pass).2 := by
  unfold outputFields at h ⊢
  cases shown : Example.ofEntries entries given with
  | error e =>
    rw [shown] at h
    cases h
  | ok merged =>
    cases typed : typeNameOf entries with
    | error e =>
      rw [shown, typed] at h
      cases h
    | ok typeName =>
      rw [shown, typed] at h
      cases h
      cases selector with
      | none => exact ⟨typeName, _, rfl, rfl, rfl⟩
      | some selector => exact ⟨typeName, _, rfl, rfl, rfl⟩

end ContentSchema.Build
