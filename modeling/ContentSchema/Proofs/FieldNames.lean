import ContentSchema.Proofs.BuildPass
import ContentSchema.Proofs.ExampleShapes
import ContentSchema.Proofs.StoreHistory
import ContentSchema.Proofs.VisitedKeys
import Mathlib.Data.List.Nodup

/-! The names of output fields. Most keys name their field themselves; a link key that is taken for
one loses its marker, and its field may take the place of another one. -/
namespace ContentSchema

/-- The mapping that a value is, or that its first member leads to. -/
def Value.leadingObject? : Value → Option Record
  | .mapping fields => some fields
  | .list (head :: _) => head.leadingObject?
  | .tuple (head :: _) => head.leadingObject?
  | _ => none

theorem Value.leadingObject?_of_other {v : Value} (noMapping : ∀ fields, v ≠ .mapping fields)
    (noList : ∀ head rest, v ≠ .list (head :: rest))
    (noTuple : ∀ head rest, v ≠ .tuple (head :: rest)) : v.leadingObject? = none := by
  unfold leadingObject?
  split
  · exact (noMapping _ rfl).elim
  · exact (noList _ _ rfl).elim
  · exact (noTuple _ _ rfl).elim
  · rfl

theorem Value.KeysDistinct.leadingObject {v : Value} {fields : Record} (h : v.KeysDistinct)
    (object : v.leadingObject? = some fields) : (Value.mapping fields).KeysDistinct := by
  induction v using Value.leadingObject?.induct with
  | case1 own =>
    cases object
    exact h
  | case2 head rest ih => exact ih (h.member rfl List.mem_cons_self) object
  | case3 head rest ih => exact ih (h.member rfl List.mem_cons_self) object
  | case4 v noMapping noList noTuple =>
    rw [leadingObject?_of_other noMapping noList noTuple] at object
    cases object

namespace OutputFields

namespace Visit
section
variable (site : Site) (typeName : String) (x : Visit)

/-- Taken for a link because of how it is written. -/
def isNamedLink : Bool :=
  !(Dictionary.get? site.config.mapping (x.qualified typeName)).isSome && LinkKey.isLink x.key

theorem unconfigured_of_isNamedLink {x : Visit} (link : x.isNamedLink site typeName = true) :
    Dictionary.get? site.config.mapping (x.qualified typeName) = none ∧
      LinkKey.isLink x.key = true := by
  simpa [isNamedLink] using link

/-- The name of the field that the key leads to. -/
def fieldName : String := if x.isNamedLink site typeName then LinkKey.clean x.key else x.key

theorem fieldName_of_isNamedLink {x : Visit} (link : x.isNamedLink site typeName = true) :
    x.fieldName site typeName = LinkKey.clean x.key := if_pos link

theorem fieldName_of_not_isNamedLink {x : Visit} (other : x.isNamedLink site typeName = false) :
    x.fieldName site typeName = x.key := by
  rw [fieldName, other]
  rfl

/-- A key that is taken for a link by its name leads to a link to a record, or to no field. -/
theorem linked_or_omitted_of_isNamedLink {x : Visit} (link : x.isNamedLink site typeName = true) :
    (∃ first r, Site.sample x.value = .ok first ∧
      site.store.linked? first (LinkKey.linkedField? x.key) = .ok (some r) ∧
      site.registry.has (Record.typeName r) = true ∧
      x.outcome site typeName = ([(LinkKey.clean x.key, .link (Record.typeName r) x.isList
        (.node x.key (LinkKey.linkedField? x.key) x.isList))], x.pass)) ∨
      (∀ field, ¬ x.Links site typeName field) ∧ x.Omitted site typeName := by
  obtain ⟨unconfigured, marked⟩ := unconfigured_of_isNamedLink site typeName link
  have considered : (x.isClaimed site typeName || x.isUnreadable site typeName) = true := by
    simp [isClaimed, marked]
  rcases x.links_or_omitted site typeName considered with ⟨field, made, yields⟩ | omitted
  · refine Or.inl ?_
    cases made with
    | configured target => cases unconfigured.symm.trans target
    | byKey _ _ sample pointed registered => exact ⟨_, _, sample, pointed, registered, yields⟩
    | byLocation _ unmarked => cases marked.symm.trans unmarked
  · exact Or.inr omitted

/-- Whether a field is found for the key. -/
def isInferred : Bool := !(x.outcome site typeName).1.isEmpty

/-- A key leads to no field or to one of its name. -/
theorem outcome_fieldName : (x.outcome site typeName).1 = [] ∨
    ∃ f, (x.outcome site typeName).1 = [(x.fieldName site typeName, f)] := by
  cases considered : x.isClaimed site typeName || x.isUnreadable site typeName with
  | true =>
    rcases x.links_or_omitted site typeName considered with ⟨field, made, yields⟩ | ⟨_, w, _, left⟩
    · rw [yields]
      refine Or.inr ⟨field.2, ?_⟩
      cases made with
      | configured named => simp [fieldName, isNamedLink, named]
      | byKey unnamed marked => simp [fieldName, isNamedLink, unnamed, marked]
      | byLocation unnamed unmarked => simp [fieldName, isNamedLink, unmarked]
    · rw [left]
      exact Or.inl rfl
  | false =>
    obtain ⟨unclaimed, readable⟩ := Bool.or_eq_false_iff.mp considered
    rw [((x.settled site typeName).unclaimed unclaimed readable).1]
    have unmarked : LinkKey.isLink x.key = false := by
      simp only [isClaimed, Bool.or_eq_false_iff] at unclaimed
      exact unclaimed.1.2
    cases (ofValue site typeName (childSelector x.selector x.key) x.key x.value x.pass).1 with
    | none => exact Or.inl rfl
    | some f => exact Or.inr ⟨f, by simp [fieldName, isNamedLink, unmarked]⟩

end
end Visit

section
variable (site : Site) (typeName : String)

theorem keys_steps (selector : String) (fields : Record) (pass : Pass) :
    (steps site typeName selector fields pass).map Visit.key = Dictionary.keys fields := by
  induction fields generalizing pass with
  | nil => rfl
  | cons entry rest ih => exact congrArg (entry.1 :: ·) (ih _)

theorem mem_of_mem_steps {selector : String} {fields : Record} {pass : Pass} {x : Visit}
    (h : x ∈ steps site typeName selector fields pass) : (x.key, x.value) ∈ fields := by
  induction fields generalizing pass with
  | nil => cases h
  | cons entry rest ih =>
    rcases List.mem_cons.mp h with rfl | h
    · exact List.mem_cons_self
    · exact List.mem_cons_of_mem _ (ih h)

theorem selector_of_mem_steps {selector : String} {fields : Record} {pass : Pass} {x : Visit}
    (h : x ∈ steps site typeName selector fields pass) : x.selector = selector := by
  induction fields generalizing pass with
  | nil => cases h
  | cons entry rest ih =>
    rcases List.mem_cons.mp h with rfl | h
    · rfl
    · exact ih h

theorem exists_mem_steps {fields : Record} {key : String} {v : Value} (h : (key, v) ∈ fields)
    (selector : String) (pass : Pass) :
    ∃ x ∈ steps site typeName selector fields pass, x.key = key ∧ x.value = v := by
  induction fields generalizing pass with
  | nil => cases h
  | cons entry rest ih =>
    rcases List.mem_cons.mp h with rfl | h
    · exact ⟨_, List.mem_cons_self, rfl, rfl⟩
    · obtain ⟨x, hx, own⟩ := ih h _
      exact ⟨x, List.mem_cons_of_mem _ hx, own⟩

theorem keys_outcomes (xs : List Visit) :
    Dictionary.keys (xs.flatMap fun x => (x.outcome site typeName).1) =
      (xs.filter (Visit.isInferred site typeName)).map (Visit.fieldName site typeName) := by
  induction xs with
  | nil => rfl
  | cons x xs ih =>
    rw [List.flatMap_cons, List.filter_cons, Dictionary.keys, List.map_append]
    rw [Dictionary.keys] at ih
    rcases x.outcome_fieldName site typeName with none | ⟨f, one⟩
    · simp [Visit.isInferred, none, ih]
    · simp [Visit.isInferred, one, ih]

end

/-- A call of inference: on a record type or, with a selector, on a nested object. -/
structure Call where
  selector : Option String
  fields : Record
  pass : Pass

namespace Call
section
variable (site : Site) (typeName : String)

/-- The keys that the call itself goes through. -/
def visited (c : Call) : List Visit :=
  steps site typeName (c.selector.getD "") (shown c.selector c.fields) c.pass

/-- Those of them for which a field is found. -/
def inferred (c : Call) : List Visit := (c.visited site typeName).filter (Visit.isInferred site typeName)

/-- What the call returns. -/
def result (c : Call) : Dictionary OutputField :=
  (ofExample site typeName c.selector c.fields c.pass).1

/-- No link key loses its marker to the name of another field. -/
def NoneRunsInto (c : Call) : Prop :=
  ∀ x ∈ c.inferred site typeName, x.isNamedLink site typeName = true →
    ∀ y ∈ c.inferred site typeName, y.key ≠ x.key →
      y.fieldName site typeName ≠ LinkKey.clean x.key

/-- The calls that a call comes to: itself, and one for the object that the example of a key leads
to, unless the key is a link. -/
inductive Reaches : Call → Call → Prop where
  | self (c : Call) : Reaches c c
  | nested {c d : Call} {x : Visit} {fields : Record} (visited : x ∈ c.visited site typeName)
      (unclaimed : linkOf? site typeName x.selector x.key x.value = none)
      (object : x.value.leadingObject? = some fields)
      (deeper : Reaches ⟨some (childSelector x.selector x.key), fields, x.pass⟩ d) : Reaches c d

variable {site typeName}

theorem result_eq (c : Call) : c.result site typeName =
    Dictionary.ofList ((c.visited site typeName).flatMap fun x => (x.outcome site typeName).1) := by
  rw [visited, ← ofFields_eq_outcomes]
  obtain ⟨selector, fields, pass⟩ := c
  cases selector <;> rfl

/-- There is no field of a name exactly when no key that leads to a field has it. -/
theorem get?_result_eq_none_iff {c : Call} {name : String} :
    Dictionary.get? (c.result site typeName) name = none ↔
      ∀ x ∈ c.inferred site typeName, x.fieldName site typeName ≠ name := by
  rw [result_eq, Dictionary.get?_ofList_eq_none_iff, keys_outcomes, List.mem_map]
  exact ⟨fun none x hx same => none ⟨x, hx, same⟩, fun none ⟨x, hx, same⟩ => none x hx same⟩

/-- The object type that a value leads to has the fields that the call on its mapping returns. -/
theorem inner_ofValue {selector fieldName : String} {v : Value} {fields : Record} {pass : Pass}
    {f : OutputField} (object : v.leadingObject? = some fields)
    (found : (ofValue site typeName selector fieldName v pass).1 = some f) :
    ∃ name, f.type.inner =
      .named (.object name ((Call.mk (some selector) fields pass).result site typeName)) := by
  induction v using Value.leadingObject?.induct generalizing f with
  | case1 own =>
    cases object
    have called : (Call.mk (some selector) fields pass).result site typeName =
        Dictionary.ofList (ofFields site typeName selector fields pass).1 := rfl
    rw [called]
    rw [ofValue_mapping] at found
    rcases run : ofFields site typeName selector fields pass with ⟨_ | ⟨first, rest⟩, after⟩
    · rw [run] at found
      cases found
    · rw [run] at found
      cases found
      exact ⟨_, rfl⟩
  | case2 head rest ih =>
    rw [ofValue_sequence site typeName selector fieldName pass rfl] at found
    obtain ⟨g, hg, rfl⟩ := Option.map_eq_some_iff.mp found
    have inner := ih object hg
    exact inner
  | case3 head rest ih =>
    rw [ofValue_sequence site typeName selector fieldName pass rfl] at found
    obtain ⟨g, hg, rfl⟩ := Option.map_eq_some_iff.mp found
    have inner := ih object hg
    exact inner
  | case4 v noMapping noList noTuple =>
    rw [Value.leadingObject?_of_other noMapping noList noTuple] at object
    cases object

/-- The object type of a key has the fields that the call on its example returns. -/
theorem inner_outcome {x : Visit} {fields : Record} {f : OutputField}
    (unclaimed : linkOf? site typeName x.selector x.key x.value = none)
    (object : x.value.leadingObject? = some fields)
    (found : (x.key, f) ∈ (x.outcome site typeName).1) :
    ∃ name, f.type.inner = .named (.object name
      ((Call.mk (some (childSelector x.selector x.key)) fields x.pass).result site typeName)) := by
  rw [Visit.outcome_eq, unclaimed] at found
  rcases run : ofValue site typeName (childSelector x.selector x.key) x.key x.value x.pass with
    ⟨_ | g, after⟩
  · simp only [run] at found
    cases found
  · simp only [run] at found
    cases List.mem_singleton.mp found
    exact inner_ofValue object (congrArg Prod.fst run)

theorem sublist_shown (c : Call) : (shown c.selector c.fields).Sublist c.fields := by
  unfold shown
  split
  · exact List.filter_sublist
  · exact List.Sublist.refl _

theorem Reaches.keysDistinct {c d : Call} (h : Reaches site typeName c d)
    (distinct : (Value.mapping c.fields).KeysDistinct) :
    (Value.mapping d.fields).KeysDistinct := by
  induction h with
  | self => exact distinct
  | @nested c d x fields visited _ object _ ih =>
    have hmem := c.sublist_shown.subset (mem_of_mem_steps site typeName visited)
    exact ih ((distinct.field hmem).leadingObject object)

/-- Different keys lead to different names exactly when no link that loses its marker runs into the
name of another field. -/
theorem distinct_fieldName_iff (c : Call) :
    (∀ x ∈ c.inferred site typeName, ∀ y ∈ c.inferred site typeName, x.key ≠ y.key →
      x.fieldName site typeName ≠ y.fieldName site typeName) ↔ c.NoneRunsInto site typeName := by
  constructor
  · intro apart x hx link y hy other
    rw [← Visit.fieldName_of_isNamedLink site typeName link]
    exact apart y hy x hx other
  · intro apart x hx y hy other same
    cases hlink : x.isNamedLink site typeName with
    | true =>
      rw [Visit.fieldName_of_isNamedLink site typeName hlink] at same
      exact apart x hx hlink y hy (Ne.symm other) same.symm
    | false =>
      cases hlink' : y.isNamedLink site typeName with
      | true =>
        rw [Visit.fieldName_of_isNamedLink site typeName hlink'] at same
        exact apart y hy hlink' x hx other same
      | false =>
        rw [Visit.fieldName_of_not_isNamedLink site typeName hlink,
          Visit.fieldName_of_not_isNamedLink site typeName hlink'] at same
        exact other same

/-- There are as many fields as keys that lead to one, exactly when different keys lead to different
names. -/
theorem length_result_eq_iff {c : Call} (distinct : (Dictionary.keys c.fields).Nodup) :
    (c.result site typeName).length = (c.inferred site typeName).length ↔
      ∀ x ∈ c.inferred site typeName, ∀ y ∈ c.inferred site typeName, x.key ≠ y.key →
        x.fieldName site typeName ≠ y.fieldName site typeName := by
  have names : Dictionary.keys ((c.visited site typeName).flatMap
      fun x => (x.outcome site typeName).1) =
        (c.inferred site typeName).map (Visit.fieldName site typeName) :=
    keys_outcomes site typeName _
  have count := congrArg List.length names
  rw [Dictionary.keys, List.length_map, List.length_map] at count
  have keys : ((c.inferred site typeName).map Visit.key).Nodup := by
    refine List.Nodup.sublist (List.filter_sublist.map _) ?_
    rw [visited, keys_steps]
    exact distinct.sublist (c.sublist_shown.map _)
  rw [result_eq, ← count, Dictionary.length_ofList_eq_iff, names,
    List.nodup_map_iff_inj_on (List.Nodup.of_map _ keys)]
  refine forall₂_congr fun x hx => forall₂_congr fun y hy => ?_
  constructor
  · intro unique other same
    exact other (congrArg Visit.key (unique same))
  · intro apart same
    by_contra other
    refine apart (fun sameKey => other ?_) same
    exact List.inj_on_of_nodup_map keys hx hy sameKey

end
end Call

/-- In every call of inference, a key that leads to a field contributes that field under its name, and
an object type has the fields that the call on the object returns. No field is lost exactly when no
link key loses its marker to the name of another field, and so exactly when different keys have
different names. The example, where one is given, has no key twice. -/
theorem noField_lost_iff (b : Build) (records : List Record) (selector : Option String)
    (given : Option Record)
    (distinct : ∀ fields, given = some fields → (Value.mapping fields).KeysDistinct) :
    ∃ typeName first, typeNameOf (records.map Value.mapping) = .ok typeName ∧
      first = Call.mk selector (given.getD (Example.ofRecords records)) b.pass ∧
      (b.outputFields (records.map Value.mapping) selector given).1 =
        .ok (first.result b.site typeName) ∧
      ∀ c, Call.Reaches b.site typeName first c →
        (∀ x ∈ c.inferred b.site typeName, ∃ f,
          (x.outcome b.site typeName).1 = [(x.fieldName b.site typeName, f)]) ∧
        (∀ x ∈ c.visited b.site typeName, linkOf? b.site typeName x.selector x.key x.value = none →
          ∀ fields f, x.value.leadingObject? = some fields →
            (x.key, f) ∈ (x.outcome b.site typeName).1 →
            ∃ name, f.type.inner = .named (.object name
              ((Call.mk (some (childSelector x.selector x.key)) fields x.pass).result
                b.site typeName))) ∧
        ((c.result b.site typeName).length = (c.inferred b.site typeName).length ↔
          c.NoneRunsInto b.site typeName) ∧
        ((∀ x ∈ c.inferred b.site typeName, ∀ y ∈ c.inferred b.site typeName, x.key ≠ y.key →
            x.fieldName b.site typeName ≠ y.fieldName b.site typeName) ↔
          c.NoneRunsInto b.site typeName) := by
  refine ⟨_, _, typeNameOf_mapping records, rfl, ?run, fun c reached => ⟨fun x hx => ?own,
    fun x _ unclaimed _ _ object found => Call.inner_outcome unclaimed object found, ?count,
    c.distinct_fieldName_iff⟩⟩
  case run =>
    rw [Build.outputFields_mapping]
    rfl
  case own =>
    rcases x.outcome_fieldName b.site (Record.sharedTypeName records) with none | one
    · have inferred := (List.mem_filter.mp hx).2
      simp [Visit.isInferred, none] at inferred
    · exact one
  case count =>
    have apart : (Value.mapping (given.getD (Example.ofRecords records))).KeysDistinct := by
      cases given with
      | none => exact Example.keysDistinct_ofRecords records
      | some fields => exact distinct fields rfl
    rw [Call.length_result_eq_iff (reached.keysDistinct apart).own, Call.distinct_fieldName_iff]

end OutputFields

private def discussed : Record :=
  [("id", .text "p"), ("type", .text "Post"), ("replies", .int 1), ("replies___NODE", .text "c")]

private def discussion : Build :=
  Build.start (.afterAdding [[("id", .text "c"), ("type", .text "Comment")], discussed]) .empty
    ⟨⟨2020, 1, 10⟩, 0, 0, 0, 0, 0⟩

private theorem ofRecords_discussed : Example.ofRecords [discussed] = discussed := by
  refine Example.ofRecords_singleton (by decide) ?_
  simp only [discussed, List.forall_mem_cons]
  exact ⟨Example.merge_leaf rfl _, Example.merge_leaf rfl _, Example.merge_leaf rfl _,
    Example.merge_leaf rfl _, nofun⟩

/-- Without a type for comments there is no link, and the number of replies is kept. -/
theorem noField_lost_unlinked_reply :
    (∀ fields, some discussed = some fields → (Value.mapping fields).KeysDistinct) ∧
      (discussion.outputFields ([discussed].map Value.mapping) none (some discussed)).1 =
        .ok [("replies", OutputField.plain (.scalar .int))] := by
  have distinct : ∀ fields, some discussed = some fields → (Value.mapping fields).KeysDistinct := by
    intro fields heq
    cases heq
    rw [← ofRecords_discussed]
    exact Example.keysDistinct_ofRecords _
  obtain ⟨_, _, named, rfl, run, _⟩ :=
    OutputFields.noField_lost_iff discussion [discussed] none (some discussed) distinct
  cases named
  exact ⟨distinct, run.trans rfl⟩

/-- The number of replies and the reply itself. Both keys lead to a field of the same name, the
second one takes the place of the first, and there is no warning. -/
theorem number_lost_to_link :
    let b := discussion.declareType "Comment" []
    let run := b.outputFields ([discussed].map Value.mapping) none none
    let first : OutputFields.Call := ⟨none, Example.ofRecords [discussed], b.pass⟩
    run.1 = .ok [("replies", OutputField.link "Comment" false (.node "replies___NODE" none false))] ∧
      run.2.pass.warnings = [] ∧
      (first.inferred b.site "Post").map OutputFields.Visit.key = ["replies", "replies___NODE"] := by
  intro b run first
  have built : run = _ := b.outputFields_mapping [discussed] none none
  simp only [Option.getD_none, ofRecords_discussed] at built
  refine ⟨?_, ?_, ?_⟩
  · rw [built]
    rfl
  · rw [built]
    rfl
  · simp only [first, ofRecords_discussed]
    decide +kernel

end ContentSchema
