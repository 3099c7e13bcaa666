import ContentSchema.Build
import ContentSchema.Proofs.LinkFields
import ContentSchema.Proofs.OutputRun

/-! The keys that output inference visits, at any depth. A key that is claimed as a link becomes one
or leaves exactly one warning; no other key leaves a warning of its own, unless it cannot be told
whether its example is a file path. -/
namespace ContentSchema.OutputFields

/-- A key that inference comes to: the selector of the mapping that it stands in, its example, and
what the pass has left behind so far. -/
structure Visit where
  selector : String
  key : String
  value : Value
  pass : Pass

namespace Visit
section
variable (site : Site) (typeName : String) (x : Visit)

/-- The fully qualified selector of the key. -/
def qualified : String := typeName ++ "." ++ childSelector x.selector x.key

def isList : Bool := x.value.items?.isSome

/-- The field that inference finds for the key, under its name, and what it leaves behind. -/
def outcome : List (String × OutputField) × Pass :=
  ofFields site typeName x.selector [(x.key, x.value)] x.pass

/-- Configured as a link, else named like one, else the path of a file. -/
def isClaimed : Bool :=
  (Dictionary.get? site.config.mapping (x.qualified typeName)).isSome || LinkKey.isLink x.key ||
    typeName != fileType && match Location.isFilePath site.convention x.value with
      | .ok isPath => isPath
      | .error _ => false

/-- Neither configured nor named like a link, and with an example of which it cannot be told whether
it is the path of a file. -/
def isUnreadable : Bool :=
  !(Dictionary.get? site.config.mapping (x.qualified typeName)).isSome && !LinkKey.isLink x.key &&
    (typeName != fileType && match Location.isFilePath site.convention x.value with
      | .ok _ => false
      | .error _ => true)

/-- The link field that goes with the key, under its name, when the record type is registered. -/
inductive Links : String × OutputField → Prop
  | configured {target : String}
      (named : Dictionary.get? site.config.mapping (x.qualified typeName) = some target)
      (registered : site.registry.has target = true) :
      Links (x.key, .link target x.isList (.mapping x.key target x.isList))
  | byKey {first : Value} {r : Record}
      (unnamed : Dictionary.get? site.config.mapping (x.qualified typeName) = none)
      (marked : LinkKey.isLink x.key = true) (sample : Site.sample x.value = .ok first)
      (pointed : site.store.linked? first (LinkKey.linkedField? x.key) = .ok (some r))
      (registered : site.registry.has (Record.typeName r) = true) :
      Links (LinkKey.clean x.key, .link (Record.typeName r) x.isList
        (.node x.key (LinkKey.linkedField? x.key) x.isList))
  | byLocation (unnamed : Dictionary.get? site.config.mapping (x.qualified typeName) = none)
      (unmarked : LinkKey.isLink x.key = false) (noFile : typeName ≠ fileType)
      (path : Location.isFilePath site.convention x.value = .ok true)
      (registered : site.registry.has fileType = true) :
      Links (x.key, .link fileType false (.file x.key))

/-- The key yields no field and exactly one warning, which names it. -/
def Omitted : Prop :=
  ∃ w : Warning, w.selector = x.qualified typeName ∧
    x.outcome site typeName = ([], { x.pass with warnings := x.pass.warnings ++ [w] })

/-- The key has no field although it is claimed, or nobody knows whether it is. -/
def isMissed : Bool :=
  (x.isClaimed site typeName || x.isUnreadable site typeName) && (x.outcome site typeName).1.isEmpty

end
end Visit

section
variable (site : Site) (typeName : String)

/-- The keys of one mapping, one after the other. -/
def steps (selector : String) : List (String × Value) → Pass → List Visit
  | [], _ => []
  | (key, v) :: rest, pass =>
    let x : Visit := ⟨selector, key, v, pass⟩
    x :: steps selector rest (x.outcome site typeName).2

mutual
/-- The keys that are visited inside a value. Of a sequence only the first member counts. -/
def visitsInside (selector : String) : Value → Pass → List Visit
  | .list (head :: _), pass => visitsInside selector head pass
  | .tuple (head :: _), pass => visitsInside selector head pass
  | .mapping fields, pass => visits selector fields pass
  | _, _ => []
/-- The keys of a mapping, each followed by those that are visited inside its example. A link is not
looked into. -/
def visits (selector : String) : List (String × Value) → Pass → List Visit
  | [], _ => []
  | (key, v) :: rest, pass =>
    let x : Visit := ⟨selector, key, v, pass⟩
    x :: ((if x.isClaimed site typeName || x.isUnreadable site typeName then []
      else visitsInside (childSelector selector key) v pass) ++
        visits selector rest (x.outcome site typeName).2)
end

end

section
variable (site : Site) (typeName : String)

theorem ofFields_cons_eq (x : Visit) (rest : List (String × Value)) :
    ofFields site typeName x.selector ((x.key, x.value) :: rest) x.pass =
      ((x.outcome site typeName).1 ++
        (ofFields site typeName x.selector rest (x.outcome site typeName).2).1,
      (ofFields site typeName x.selector rest (x.outcome site typeName).2).2) := by
  have nil (pass : Pass) : ofFields site typeName x.selector [] pass = ([], pass) := rfl
  simp only [Visit.outcome, ofFields_cons, nil]
  cases linkOf? site typeName x.selector x.key x.value with
  | none =>
    rcases ofValue site typeName (childSelector x.selector x.key) x.key x.value x.pass with
      ⟨_ | _, _⟩ <;> rfl
  | some outcome => cases outcome <;> rfl

namespace Visit

theorem outcome_eq (x : Visit) :
    x.outcome site typeName =
      match linkOf? site typeName x.selector x.key x.value with
      | some (.error e) => ([], { x.pass with
          warnings := x.pass.warnings ++ [e.warning (x.qualified typeName)] })
      | some (.ok field) => ([field], x.pass)
      | none =>
        match ofValue site typeName (childSelector x.selector x.key) x.key x.value x.pass with
        | (none, after) => ([], after)
        | (some f, after) => ([(x.key, f)], after) := by
  have nil (pass : Pass) : ofFields site typeName x.selector [] pass = ([], pass) := rfl
  rw [outcome, ofFields_cons]
  simp only [nil]
  rfl

/-- Neither claimed nor in doubt: then the shape of the example decides, and only then. -/
theorem linkOf?_eq_none_iff_unclaimed (x : Visit) :
    linkOf? site typeName x.selector x.key x.value = none ↔
      (x.isClaimed site typeName || x.isUnreadable site typeName) = false := by
  rw [linkOf?_eq_none_iff, Strategy.choose_eq]
  unfold isClaimed isUnreadable qualified
  cases Dictionary.get? site.config.mapping (typeName ++ "." ++ childSelector x.selector x.key) with
  | some target => simp
  | none =>
    cases LinkKey.isLink x.key with
    | true => simp
    | false =>
      by_cases file : typeName = fileType
      · simp [file]
      · rcases Location.isFilePath site.convention x.value with _ | _ | _ <;> simp [file]

private theorem map_eq_ok_iff {ε α β : Type} {e : Except ε α} {g : α → β} {b : β} :
    e.map g = .ok b ↔ ∃ a, e = .ok a ∧ g a = b := by
  cases e <;> simp [Except.map]

/-- A key leads to a link exactly when the run makes that link of it. -/
theorem links_iff (x : Visit) (field : String × OutputField) :
    x.Links site typeName field ↔
      linkOf? site typeName x.selector x.key x.value = some (.ok field) := by
  unfold linkOf?
  rw [Strategy.choose_eq]
  constructor
  case mp =>
    intro h
    cases h with
    | configured named registered =>
      unfold qualified at named
      rw [named]
      exact congrArg some (map_eq_ok_iff.mpr
        ⟨_, Site.configuredLink_eq_ok_iff.mpr ⟨registered, rfl⟩, rfl⟩)
    | byKey unnamed marked sample pointed registered =>
      unfold qualified at unnamed
      rw [unnamed, marked]
      exact congrArg some (map_eq_ok_iff.mpr
        ⟨_, Site.keyLink_eq_ok_iff.mpr ⟨_, _, sample, pointed, registered, rfl⟩, rfl⟩)
    | byLocation unnamed unmarked noFile path registered =>
      unfold qualified at unnamed
      simp only [unnamed, unmarked, noFile, path, Bool.false_eq_true, if_false]
      exact congrArg some (map_eq_ok_iff.mpr
        ⟨_, Site.locationLink_eq_ok_iff.mpr ⟨registered, rfl⟩, rfl⟩)
  case mpr =>
    intro h
    cases named : Dictionary.get? site.config.mapping
        (typeName ++ "." ++ childSelector x.selector x.key) with
    | some target =>
      rw [named] at h
      obtain ⟨f, hf, rfl⟩ := map_eq_ok_iff.mp (Option.some.inj h)
      obtain ⟨registered, rfl⟩ := Site.configuredLink_eq_ok_iff.mp hf
      exact .configured named registered
    | none =>
      cases marked : LinkKey.isLink x.key with
      | true =>
        rw [named, marked] at h
        obtain ⟨f, hf, rfl⟩ := map_eq_ok_iff.mp (Option.some.inj h)
        obtain ⟨first, r, sample, pointed, registered, rfl⟩ := Site.keyLink_eq_ok_iff.mp hf
        exact .byKey named marked sample pointed registered
      | false =>
        by_cases file : typeName = fileType
        · simp only [named, marked, if_pos file, Bool.false_eq_true, if_false] at h
          cases h
        · rcases path : Location.isFilePath site.convention x.value with e | _ | _
          · simp only [named, marked, file, path, Bool.false_eq_true, if_false] at h
            cases h
          · simp only [named, marked, file, path, Bool.false_eq_true, if_false] at h
            cases h
          · simp only [named, marked, file, path, Bool.false_eq_true, if_false] at h
            obtain ⟨f, hf, rfl⟩ := map_eq_ok_iff.mp (Option.some.inj h)
            obtain ⟨registered, rfl⟩ := Site.locationLink_eq_ok_iff.mp hf
            exact .byLocation named marked file path registered

/-- A key in doubt is no link. -/
theorem not_links_of_isUnreadable {x : Visit} (h : x.isUnreadable site typeName = true)
    (field : String × OutputField) : ¬ x.Links site typeName field := by
  intro hfield
  unfold isUnreadable at h
  cases hfield with
  | configured named => simp [named] at h
  | byKey unnamed marked => simp [marked] at h
  | byLocation unnamed unmarked noFile path => simp [path] at h

/-- A key that is claimed or in doubt becomes its link, or there is no such link and it leaves one
warning. -/
theorem links_or_omitted (x : Visit)
    (h : (x.isClaimed site typeName || x.isUnreadable site typeName) = true) :
    (∃ field, x.Links site typeName field ∧ x.outcome site typeName = ([field], x.pass)) ∨
      ((∀ field, ¬ x.Links site typeName field) ∧ x.Omitted site typeName) := by
  simp only [links_iff]
  unfold Omitted
  rw [outcome_eq]
  cases made : linkOf? site typeName x.selector x.key x.value with
  | none =>
    have unclaimed := (x.linkOf?_eq_none_iff_unclaimed site typeName).mp made
    rw [h] at unclaimed
    cases unclaimed
  | some outcome =>
    cases outcome with
    | ok field => exact Or.inl ⟨field, rfl, rfl⟩
    | error e =>
      refine Or.inr ⟨fun field hfield => ?_, e.warning _, rfl, rfl⟩
      cases hfield

end Visit

/-- The warnings between two states of a pass name some keys, one after the other. -/
def WarnsOf (pass after : Pass) (missed : List Visit) : Prop :=
  ∃ added, after.warnings = pass.warnings ++ added ∧
    added.map Warning.selector = missed.map (Visit.qualified typeName)

theorem WarnsOf.refl (pass : Pass) : WarnsOf typeName pass pass [] :=
  ⟨[], (List.append_nil _).symm, rfl⟩

theorem WarnsOf.append {pass between after : Pass} {a b : List Visit}
    (first : WarnsOf typeName pass between a) (second : WarnsOf typeName between after b) :
    WarnsOf typeName pass after (a ++ b) := by
  obtain ⟨added, hadded, ha⟩ := first
  obtain ⟨more, hmore, hb⟩ := second
  refine ⟨added ++ more, ?_, ?_⟩
  · rw [hmore, hadded, List.append_assoc]
  · rw [List.map_append, List.map_append, ha, hb]

/-- The keys of a list that are missed. -/
def missed (visits : List Visit) : List Visit := visits.filter (Visit.isMissed site typeName)

/-- What one key adds, given what is added inside its example. -/
theorem warnsOf_outcome (x : Visit)
    (inside : linkOf? site typeName x.selector x.key x.value = none →
      WarnsOf typeName x.pass
        (ofValue site typeName (childSelector x.selector x.key) x.key x.value x.pass).2
        (missed site typeName
          (visitsInside site typeName (childSelector x.selector x.key) x.value x.pass))) :
    WarnsOf typeName x.pass (x.outcome site typeName).2
      (missed site typeName (x ::
        if x.isClaimed site typeName || x.isUnreadable site typeName then []
        else visitsInside site typeName (childSelector x.selector x.key) x.value x.pass)) := by
  unfold missed
  rw [List.filter_cons]
  cases considered : x.isClaimed site typeName || x.isUnreadable site typeName with
  | true =>
    simp only [Visit.isMissed, considered, Bool.true_and]
    rcases x.links_or_omitted site typeName considered with ⟨field, _, made⟩ | ⟨_, w, hw, left⟩
    · rw [made]
      exact ⟨[], by simp⟩
    · rw [left]
      exact ⟨[w], by simp [hw]⟩
  | false =>
    have made := (x.linkOf?_eq_none_iff_unclaimed site typeName).mpr considered
    simp only [Visit.isMissed, considered, Bool.false_and, Bool.false_eq_true, if_false]
    have law := inside made
    rw [Visit.outcome_eq, made]
    unfold missed at law
    revert law
    rcases ofValue site typeName (childSelector x.selector x.key) x.key x.value x.pass with
      ⟨_ | _, _⟩ <;> exact id

mutual
theorem warnsOf_ofValue : ∀ (selector fieldName : String) (v : Value) (pass : Pass),
    WarnsOf typeName pass (ofValue site typeName selector fieldName v pass).2
      (missed site typeName (visitsInside site typeName selector v pass))
  | selector, fieldName, .list (head :: rest), pass => by
    rw [ofValue_sequence site typeName selector fieldName pass rfl, visitsInside]
    exact warnsOf_ofValue selector fieldName head pass
  | selector, fieldName, .tuple (head :: rest), pass => by
    rw [ofValue_sequence site typeName selector fieldName pass rfl, visitsInside]
    exact warnsOf_ofValue selector fieldName head pass
  | selector, fieldName, .mapping fields, pass => by
    have law := warnsOf_ofFields selector fields pass
    rw [ofValue_mapping, visitsInside]
    revert law
    rcases ofFields site typeName selector fields pass with ⟨_ | _, _⟩ <;> exact id
  | selector, fieldName, .list [], pass => by
    rw [ofValue_empty site typeName selector fieldName pass rfl]
    exact .refl typeName pass
  | selector, fieldName, .tuple [], pass => by
    rw [ofValue_empty site typeName selector fieldName pass rfl]
    exact .refl typeName pass
  | selector, fieldName, .null, pass | selector, fieldName, .bool _, pass
  | selector, fieldName, .int _, pass | selector, fieldName, .float _, pass
  | selector, fieldName, .text _, pass | selector, fieldName, .bytes _, pass
  | selector, fieldName, .foreign _ _, pass => by
    rw [ofValue_single site typeName selector fieldName pass rfl rfl]
    exact .refl typeName pass
theorem warnsOf_ofFields : ∀ (selector : String) (fields : List (String × Value)) (pass : Pass),
    WarnsOf typeName pass (ofFields site typeName selector fields pass).2
      (missed site typeName (visits site typeName selector fields pass))
  | selector, [], pass => .refl typeName pass
  | selector, (key, v) :: rest, pass => by
    have first := warnsOf_outcome site typeName ⟨selector, key, v, pass⟩ fun _ =>
      warnsOf_ofValue (childSelector selector key) key v pass
    have others := warnsOf_ofFields selector rest
      (Visit.outcome site typeName ⟨selector, key, v, pass⟩).2
    rw [ofFields_cons_eq site typeName ⟨selector, key, v, pass⟩, visits]
    have both := first.append typeName others
    unfold missed at both ⊢
    rw [← List.filter_append] at both
    exact both
end

/-- The fields of a mapping are those that its keys yield, in their order. -/
theorem ofFields_eq_outcomes (selector : String) (fields : List (String × Value)) (pass : Pass) :
    (ofFields site typeName selector fields pass).1 =
      (steps site typeName selector fields pass).flatMap fun x => (x.outcome site typeName).1 := by
  induction fields generalizing pass with
  | nil => rfl
  | cons entry rest ih =>
    obtain ⟨key, v⟩ := entry
    rw [ofFields_cons_eq site typeName ⟨selector, key, v, pass⟩, steps, List.flatMap_cons, ih]

/-- How it goes with a visited key. -/
structure Visit.Settled (x : Visit) : Prop where
  claimed : x.isClaimed site typeName = true →
    (∃ field, x.Links site typeName field ∧ x.outcome site typeName = ([field], x.pass)) ∨
      ((∀ field, ¬ x.Links site typeName field) ∧ x.Omitted site typeName)
  unreadable : x.isUnreadable site typeName = true → x.Omitted site typeName
  /-- All warnings that come up at any other key are those of keys inside its example. -/
  unclaimed : x.isClaimed site typeName = false → x.isUnreadable site typeName = false →
    (x.outcome site typeName).1 =
        ((ofValue site typeName (childSelector x.selector x.key) x.key x.value x.pass).1.map
          fun f => (x.key, f)).toList ∧
      WarnsOf typeName x.pass (x.outcome site typeName).2 (missed site typeName
        (visitsInside site typeName (childSelector x.selector x.key) x.value x.pass))

theorem Visit.settled (x : Visit) : x.Settled site typeName where
  claimed h := x.links_or_omitted site typeName (by rw [h, Bool.true_or])
  unreadable h := by
    have considered : (x.isClaimed site typeName || x.isUnreadable site typeName) = true := by
      rw [h, Bool.or_true]
    rcases x.links_or_omitted site typeName considered with ⟨field, hfield, _⟩ | ⟨_, left⟩
    · exact absurd hfield (not_links_of_isUnreadable site typeName h field)
    · exact left
  unclaimed := by
    intro unclaimed readable
    have considered : (x.isClaimed site typeName || x.isUnreadable site typeName) = false := by
      rw [unclaimed, readable, Bool.or_false]
    have made := (x.linkOf?_eq_none_iff_unclaimed site typeName).mpr considered
    have law := warnsOf_ofValue site typeName (childSelector x.selector x.key) x.key x.value x.pass
    rw [outcome_eq, made]
    revert law
    rcases ofValue site typeName (childSelector x.selector x.key) x.key x.value x.pass with
      ⟨_ | _, _⟩ <;> exact fun law => ⟨rfl, law⟩

end

/-- The fields that an example is read for: all of a nested object, and those of a record that not
every record has. -/
def shown (selector : Option String) (fields : Record) : Record :=
  match selector with
  | none => fields.filter fun (key, _) => !excluded.contains key
  | some _ => fields

/-- Every key that a call visits becomes the link that claims it, is left out with one warning, or
is typed by its example without a warning of its own. So there are as many new warnings as visited
keys that were claimed, or in doubt, and have no field. -/
theorem outputFields_settles_visits (b : Build) (records : List Record) (selector : Option String)
    (given : Option Record) :
    ∃ typeName fields, typeNameOf (records.map Value.mapping) = .ok typeName ∧
      Example.ofEntries (records.map Value.mapping) given = .ok fields ∧
      (b.outputFields (records.map Value.mapping) selector given).1 = .ok (Dictionary.ofList
        ((steps b.site typeName (selector.getD "") (shown selector fields) b.pass).flatMap
          fun x => (x.outcome b.site typeName).1)) ∧
      (∀ x ∈ visits b.site typeName (selector.getD "") (shown selector fields) b.pass,
        x.Settled b.site typeName) ∧
      WarnsOf typeName b.pass (b.outputFields (records.map Value.mapping) selector given).2.pass
        (missed b.site typeName
          (visits b.site typeName (selector.getD "") (shown selector fields) b.pass)) ∧
      (b.outputFields (records.map Value.mapping) selector given).2.pass.warnings.length =
        b.pass.warnings.length + (missed b.site typeName
          (visits b.site typeName (selector.getD "") (shown selector fields) b.pass)).length := by
  obtain ⟨typeName, htype⟩ := exists_typeNameOf records
  obtain ⟨fields, hfields⟩ := Example.exists_ofEntries records given
  have run : b.outputFields (records.map Value.mapping) selector given =
      (.ok (Dictionary.ofList
        (ofFields b.site typeName (selector.getD "") (shown selector fields) b.pass).1),
        { b with pass :=
          (ofFields b.site typeName (selector.getD "") (shown selector fields) b.pass).2 }) := by
    unfold Build.outputFields
    rw [hfields, htype]
    cases selector <;> rfl
  have law := warnsOf_ofFields b.site typeName (selector.getD "") (shown selector fields) b.pass
  refine ⟨typeName, fields, htype, hfields, ?_, fun x _ => x.settled b.site typeName, ?_, ?_⟩
  · rw [run, ofFields_eq_outcomes]
  · rw [run]
    exact law
  · rw [run]
    obtain ⟨added, hadded, names⟩ := law
    have count := congrArg List.length names
    rw [List.length_map, List.length_map] at count
    rw [hadded, List.length_append, count]

end ContentSchema.OutputFields
