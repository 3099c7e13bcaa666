import ContentSchema.Proofs.BuildPass
import ContentSchema.Proofs.VisitedKeys

/-! Output inference over any source of records, which may refuse any look-up. All that inference asks
of a source is which keys are links. Over a store it is the inference of a build. -/
namespace ContentSchema

/-- What a source of records answers: the record with an identifier, and all records. -/
structure RecordSource where
  node? : Value → Except StoreFault (Option Record)
  nodes : Except StoreFault (List Record)

def Store.source (s : Store) : RecordSource := ⟨s.node?, s.nodes⟩

namespace RecordSource

/-- The record that a value points at, as in a store. -/
def linked? (source : RecordSource) (value : Value) (linkedField : Option String) :
    Except StoreFault (Option Record) :=
  match linkedField.filter fun field => !field.isEmpty with
  | none => source.node? value
  | some field => return (← source.nodes).find? fun r => match Dictionary.get? r field with
    | some v => v.same value
    | none => false

def keyLink (source : RecordSource) (registry : Registry) (key : String) (value : Value) :
    Except LinkFailure OutputField := do
  let isList := value.items?.isSome
  let linkedField := LinkKey.linkedField? key
  let first ← Site.sample value
  match ← (source.linked? first linkedField).mapError .store with
  | none => throw (.node key first)
  | some r => match registry.get (Record.typeName r) with
    | .ok _ => return .link (Record.typeName r) isList (.node key linkedField isList)
    | .error e => throw (.nodeType key e)

end RecordSource

namespace OutputFields

/-- What makes a key under a selector a link, or fails to: nothing when the shape of the value
decides. -/
abbrev Linker := String → String → Value → Option (Except LinkFailure (String × OutputField))

/-- Links whose records come from a source. Only links by their key ask it. -/
def linkerFrom (source : RecordSource) (site : Site) (typeName : String) : Linker :=
  fun selector key v =>
    match Strategy.choose site.convention site.config typeName
        (typeName ++ "." ++ childSelector selector key) key v with
    | .ok .byKey => some ((source.keyLink site.registry key v).map fun f => (LinkKey.clean key, f))
    | _ => linkOf? site typeName selector key v

section
variable (linker : Linker) (typeName : String)

mutual
/-- The field of an example, and what inference leaves behind. -/
def valueBy (selector fieldName : String) : Value → Pass → Option OutputField × Pass
  | .list (head :: _), pass =>
    let (f, after) := valueBy selector fieldName head pass
    (f.map fun f => .plain (.list f.type), after)
  | .tuple (head :: _), pass =>
    let (f, after) := valueBy selector fieldName head pass
    (f.map fun f => .plain (.list f.type), after)
  | .list [], pass => (none, pass)
  | .tuple [], pass => (none, pass)
  | .mapping fields, pass =>
    match fieldsBy selector fields pass with
    | ([], after) => (none, after)
    | (found, after) =>
      (some (.plain (.named (.object
        (after.namer.nameFor (typeName ++ "." ++ selector) none).1 (Dictionary.ofList found)))),
        { after with namer := (after.namer.nameFor (typeName ++ "." ++ selector) none).2 })
  | v, pass => (scalarField? fieldName v, pass)
/-- The fields of a mapping, and what inference leaves behind. -/
def fieldsBy (selector : String) :
    List (String × Value) → Pass → List (String × OutputField) × Pass
  | [], pass => ([], pass)
  | (key, v) :: rest, pass =>
    match linker selector key v with
    | some (.error e) =>
      fieldsBy selector rest { pass with
        warnings := pass.warnings ++ [e.warning (typeName ++ "." ++ childSelector selector key)] }
    | some (.ok field) =>
      let (found, after) := fieldsBy selector rest pass
      (field :: found, after)
    | none =>
      match valueBy (childSelector selector key) key v pass with
      | (none, between) => fieldsBy selector rest between
      | (some f, between) =>
        let (found, after) := fieldsBy selector rest between
        ((key, f) :: found, after)
end

end

theorem linkerFrom_store (site : Site) (typeName : String) :
    linkerFrom site.store.source site typeName = linkOf? site typeName := by
  funext selector key v
  unfold linkerFrom
  split
  · rename_i byKey
    rw [linkOf?, byKey]
    rfl
  · rfl

section
variable {linker : Linker} {typeName selector fieldName : String} {pass : Pass}

theorem valueBy_sequence {w head : Value} {rest : List Value} (h : w.items? = some (head :: rest)) :
    valueBy linker typeName selector fieldName w pass =
      ((valueBy linker typeName selector fieldName head pass).1.map fun f => .plain (.list f.type),
        (valueBy linker typeName selector fieldName head pass).2) := by
  cases w with
  | list items =>
    cases h
    rw [valueBy]
  | tuple items =>
    cases h
    rw [valueBy]
  | _ => cases h

theorem valueBy_empty {w : Value} (h : w.items? = some []) :
    valueBy linker typeName selector fieldName w pass = (none, pass) := by
  cases w with
  | list items =>
    cases h
    rw [valueBy]
  | tuple items =>
    cases h
    rw [valueBy]
  | _ => cases h

theorem valueBy_single {w : Value} (noSequence : w.items? = none) (noMapping : w.fields? = none) :
    valueBy linker typeName selector fieldName w pass = (scalarField? fieldName w, pass) := by
  cases w with
  | list _ => cases noSequence
  | tuple _ => cases noSequence
  | mapping _ => cases noMapping
  | _ => simp only [valueBy]

end

/-- Inference by the links of a site is the inference of the site. -/
theorem run_eq_by (site : Site) (typeName : String) :
    (∀ selector fieldName v pass, valueBy (linkOf? site typeName) typeName selector fieldName v pass =
      ofValue site typeName selector fieldName v pass) ∧
    ∀ selector fields pass, fieldsBy (linkOf? site typeName) typeName selector fields pass =
      ofFields site typeName selector fields pass := by
  refine run_induction site typeName
    (P := fun selector fieldName v pass found after =>
      valueBy (linkOf? site typeName) typeName selector fieldName v pass = (found, after))
    (Q := fun selector fields pass found after =>
      fieldsBy (linkOf? site typeName) typeName selector fields pass = (found, after))
    ?sequence ?empty ?single ?noField ?object ?nil ?failed ?linked ?untyped ?typed
  case sequence =>
    intro selector fieldName w head rest pass found after members ih
    rw [valueBy_sequence members, ih]
  case empty => exact fun _ _ _ _ none => valueBy_empty none
  case single => exact fun _ _ _ _ noSequence noMapping => valueBy_single noSequence noMapping
  case noField =>
    intro selector fieldName fields pass after ih
    rw [valueBy, ih]
  case object =>
    intro selector fieldName fields pass found after ih some
    rw [valueBy, ih]
    cases found with
    | nil => exact absurd rfl some
    | cons field found => rfl
  case nil =>
    intro selector pass
    rw [fieldsBy]
  case failed =>
    intro selector key v rest pass e found after link ih
    rw [fieldsBy, link]
    exact ih
  case linked =>
    intro selector key v rest pass field found after link ih
    rw [fieldsBy, link]
    simp only [ih]
  case untyped =>
    intro selector key v rest pass between found after link ihv ih
    rw [fieldsBy, link]
    simp only [ihv, ih]
  case typed =>
    intro selector key v rest pass f between found after link ihv ih
    rw [fieldsBy, link]
    simp only [ihv, ih]

end OutputFields

namespace Build

/-- Infer the fields of a record type or of a nested object from a source of records. -/
def outputFieldsFrom (b : Build) (source : RecordSource) (entries : List Value)
    (selector : Option String) (given : Option Record) :
    Except NotRecord (Dictionary OutputField) × Build :=
  match Example.ofEntries entries given, typeNameOf entries with
  | .ok fields, .ok typeName =>
    let run := OutputFields.fieldsBy (OutputFields.linkerFrom source b.site typeName) typeName
      (selector.getD "") (OutputFields.shown selector fields) b.pass
    (.ok (Dictionary.ofList run.1), { b with pass := run.2 })
  | .error e, _ => (.error e, b)
  | _, .error e => (.error e, b)

theorem outputFieldsFrom_store (b : Build) :
    b.outputFieldsFrom b.site.store.source = b.outputFields := by
  funext entries selector given
  unfold outputFieldsFrom outputFields
  cases Example.ofEntries entries given with
  | error e => rfl
  | ok fields =>
    cases typeNameOf entries with
    | error e => rfl
    | ok typeName =>
      simp only [OutputFields.linkerFrom_store, (OutputFields.run_eq_by b.site typeName).2]
      cases selector <;> rfl

theorem outputFieldsFrom_mapping (b : Build) (source : RecordSource) (records : List Record)
    (selector : Option String) (given : Option Record) :
    b.outputFieldsFrom source (records.map Value.mapping) selector given =
      let typeName := Record.sharedTypeName records
      let run := OutputFields.fieldsBy (OutputFields.linkerFrom source b.site typeName) typeName
        (selector.getD "")
        (OutputFields.shown selector (given.getD (Example.ofRecords records))) b.pass
      (.ok (Dictionary.ofList run.1), { b with pass := run.2 }) := by
  rw [outputFieldsFrom, Example.ofEntries_mapping, typeNameOf_mapping]

end Build
end ContentSchema
