import ContentSchema.Proofs.FieldPath
import ContentSchema.Proofs.NameSupply
import ContentSchema.Proofs.OutputRun

/-! The positions of object types in one result. Two of them share a name exactly when their
selectors read the same. -/
namespace ContentSchema.OutputFields

/-- An object type by its position in a type. Linked record types have no position. -/
inductive ObjectAt : LinkedType → List PathStep → String → Prop where
  | here {name : String} {fields : Dictionary OutputField} :
      ObjectAt (.named (.object name fields)) [] name
  | element {t : LinkedType} {path : List PathStep} {name : String}
      (deeper : ObjectAt t path name) : ObjectAt (.list t) (.element :: path) name
  | key {owner key name : String} {fields : Dictionary OutputField} {f : OutputField}
      {path : List PathStep} (found : Dictionary.get? fields key = some f)
      (deeper : ObjectAt f.type path name) :
      ObjectAt (.named (.object owner fields)) (.key key :: path) name

/-- An object type by its position below some fields. -/
def ObjectBelow (fields : Dictionary OutputField) (path : List PathStep) (name : String) : Prop :=
  ∃ key f rest, path = .key key :: rest ∧ Dictionary.get? fields key = some f ∧
    ObjectAt f.type rest name

/-- The selector at a position. Members of a list have the selector of the list. -/
def selectorAt : String → List PathStep → String
  | selector, [] => selector
  | selector, .key key :: path => selectorAt (childSelector selector key) path
  | selector, .element :: path => selectorAt selector path

/-- All object types in a type have the names remembered for their selectors. -/
def NamedBy (n : Namer) (typeName selector : String) (t : LinkedType) : Prop :=
  ∀ path name, ObjectAt t path name →
    n.answer? (typeName ++ "." ++ selectorAt selector path) = some name

section
variable {n later : Namer} {typeName selector : String}

theorem NamedBy.mono {t : LinkedType} (h : NamedBy n typeName selector t) (kept : n.Extends later) :
    NamedBy later typeName selector t :=
  fun path name at_ => kept _ _ (h path name at_)

theorem namedBy_list {t : LinkedType} (h : NamedBy n typeName selector t) :
    NamedBy n typeName selector (.list t) := by
  intro path name position
  cases position with
  | element deeper =>
    have inner := h _ name deeper
    exact inner

theorem namedBy_object {name : String} {fields : Dictionary OutputField}
    (own : n.answer? (typeName ++ "." ++ selector) = some name)
    (each : ∀ key f, (key, f) ∈ fields →
      NamedBy n typeName (childSelector selector key) f.type) :
    NamedBy n typeName selector (.named (.object name fields)) := by
  intro path name position
  cases position with
  | here => exact own
  | key found deeper => exact each _ _ (Dictionary.mem_of_get? found) _ name deeper

theorem namedBy_scalarField? {fieldName : String} {v : Value} {f : OutputField}
    (h : scalarField? fieldName v = some f) : NamedBy n typeName selector f.type := by
  intro path name position
  unfold scalarField? at h
  split at h
  · cases h
    cases position
  · obtain ⟨s, _, rfl⟩ := Option.map_eq_some_iff.mp h
    cases position

theorem namedBy_link {site : Site} {key : String} {v : Value} {field : String × OutputField}
    {typeName' selector' : String} (h : linkOf? site typeName' selector' key v = some (.ok field)) :
    NamedBy n typeName selector field.2.type := by
  obtain ⟨target, isList, resolver, heq⟩ := eq_link_of_linkOf? h
  rw [heq]
  intro path name position
  cases isList with
  | false => cases position
  | true =>
    cases position with
    | element deeper => cases deeper

end

/-- What the run over a value leaves behind. -/
private structure ValueNamed (typeName selector : String) (pass : Pass)
    (found : Option OutputField) (after : Pass) : Prop where
  grows : pass.namer.Grows after.namer
  named : ∀ f, found = some f → NamedBy after.namer typeName selector f.type

/-- What the run over the fields of a mapping leaves behind. -/
private structure FieldsNamed (typeName selector : String) (pass : Pass)
    (found : List (String × OutputField)) (after : Pass) : Prop where
  grows : pass.namer.Grows after.namer
  named : ∀ key f, (key, f) ∈ found →
    NamedBy after.namer typeName (childSelector selector key) f.type

private theorem run_named (site : Site) (typeName : String) :
    (∀ selector fieldName v pass, ValueNamed typeName selector pass
      (ofValue site typeName selector fieldName v pass).1
      (ofValue site typeName selector fieldName v pass).2) ∧
    ∀ selector fields pass, FieldsNamed typeName selector pass
      (ofFields site typeName selector fields pass).1
      (ofFields site typeName selector fields pass).2 := by
  refine run_induction site typeName
    (P := fun selector _ _ pass found after => ValueNamed typeName selector pass found after)
    (Q := fun selector _ pass found after => FieldsNamed typeName selector pass found after)
    ?sequence ?empty ?single ?noField ?object ?nil ?failed ?linked ?untyped ?typed
  case sequence =>
    intro selector fieldName w head rest pass found after _ ih
    refine ⟨ih.grows, fun f hf => ?_⟩
    obtain ⟨inner, hinner, rfl⟩ := Option.map_eq_some_iff.mp hf
    exact namedBy_list (ih.named inner hinner)
  case empty => exact fun _ _ _ pass _ => ⟨.refl _, nofun⟩
  case single => exact fun _ _ _ pass _ _ => ⟨.refl _, fun f hf => namedBy_scalarField? hf⟩
  case noField => exact fun _ _ _ _ _ ih => ⟨ih.grows, nofun⟩
  case object =>
    intro selector fieldName fields pass found after ih _
    have grown := after.namer.grows_nameFor (typeName ++ "." ++ selector) none
    refine ⟨ih.grows.trans grown, fun f hf => ?_⟩
    cases hf
    apply namedBy_object
    · exact after.namer.answer?_nameFor _ none
    · intro key f hmem
      exact (ih.named key f (Dictionary.mem_of_mem_ofList hmem)).mono grown.kept
  case nil => exact fun _ pass => ⟨.refl _, nofun⟩
  case failed => exact fun _ _ _ _ _ _ _ _ _ ih => ⟨ih.grows, ih.named⟩
  case linked =>
    intro selector key v rest pass field found after link ih
    refine ⟨ih.grows, fun k f hmem => ?_⟩
    rcases List.mem_cons.mp hmem with heq | hmem
    · cases heq
      exact namedBy_link link
    · exact ih.named k f hmem
  case untyped =>
    intro selector key v rest pass between found after _ ihv ih
    exact ⟨ihv.grows.trans ih.grows, ih.named⟩
  case typed =>
    intro selector key v rest pass f between found after _ ihv ih
    refine ⟨ihv.grows.trans ih.grows, fun k g hmem => ?_⟩
    rcases List.mem_cons.mp hmem with heq | hmem
    · cases heq
      exact (ihv.named f rfl).mono ih.grows.kept
    · exact ih.named k g hmem

/-- The fields that an example is read for: all of a nested object, and those of a record that
not every record has. -/
private theorem ofExample_eq (site : Site) (typeName : String) (selector : Option String)
    (fields : Record) (pass : Pass) :
    ∃ shown, ofExample site typeName selector fields pass =
      (Dictionary.ofList (ofFields site typeName (selector.getD "") shown pass).1,
        (ofFields site typeName (selector.getD "") shown pass).2) := by
  cases selector with
  | none => exact ⟨_, rfl⟩
  | some selector => exact ⟨_, rfl⟩

/-- Every object type of a result has the name remembered for its selector. -/
theorem answer?_of_objectBelow (site : Site) (typeName : String) (selector : Option String)
    (fields : Record) (pass : Pass) {path : List PathStep} {name : String}
    (h : ObjectBelow (ofExample site typeName selector fields pass).1 path name) :
    (ofExample site typeName selector fields pass).2.namer.answer?
      (typeName ++ "." ++ selectorAt (selector.getD "") path) = some name := by
  obtain ⟨shown, heq⟩ := ofExample_eq site typeName selector fields pass
  obtain ⟨key, f, rest, rfl, found, position⟩ := h
  rw [heq] at found ⊢
  have run := (run_named site typeName).2 (selector.getD "") shown pass
  have hmem := Dictionary.mem_of_mem_ofList (Dictionary.mem_of_get? found)
  exact run.named key f hmem rest name position

/-- Inference keeps a namer faithful. -/
theorem faithful_ofExample (site : Site) (typeName : String) (selector : Option String)
    (fields : Record) {pass : Pass} (faithful : pass.namer.Faithful) :
    (ofExample site typeName selector fields pass).2.namer.Faithful := by
  obtain ⟨shown, heq⟩ := ofExample_eq site typeName selector fields pass
  rw [heq]
  exact ((run_named site typeName).2 (selector.getD "") shown pass).grows.faithful faithful

/-- Two object types of a result have one name exactly when their selectors read the same. -/
theorem name_eq_iff_selectorAt_eq (site : Site) (typeName : String) (selector : Option String)
    (fields : Record) {pass : Pass} (faithful : pass.namer.Faithful) {p q : List PathStep}
    {a b : String} (hp : ObjectBelow (ofExample site typeName selector fields pass).1 p a)
    (hq : ObjectBelow (ofExample site typeName selector fields pass).1 q b) :
    a = b ↔ selectorAt (selector.getD "") p = selectorAt (selector.getD "") q := by
  have after := faithful_ofExample site typeName selector fields faithful
  rw [after.answer?_eq_iff (answer?_of_objectBelow site typeName selector fields pass hp)
    (answer?_of_objectBelow site typeName selector fields pass hq), String.append_right_inj]

end ContentSchema.OutputFields
