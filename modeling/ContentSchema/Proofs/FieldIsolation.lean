import ContentSchema.Proofs.RecordSources

/-! A field that fails leaves no trace but its warning. Without the keys that fail, at any depth, an
example gives the same fields, hands out the same names and leaves no warning. -/
namespace ContentSchema.OutputFields
section
variable (linker : Linker)

mutual
/-- A value without the keys inside it that fail. Of a sequence only the first member is read. -/
def keptInside (selector : String) : Value → Value
  | .list (head :: rest) => .list (keptInside selector head :: rest)
  | .tuple (head :: rest) => .tuple (keptInside selector head :: rest)
  | .mapping fields => .mapping (kept [] selector fields)
  | v => v
/-- The entries of a mapping without the keys that fail, there and inside the others. A link is not
looked into, and exempt keys are not read. -/
def kept (exempt : List String) (selector : String) :
    List (String × Value) → List (String × Value)
  | [] => []
  | (key, v) :: rest =>
    if exempt.contains key then (key, v) :: kept exempt selector rest
    else match linker selector key v with
      | some (.error _) => kept exempt selector rest
      | some (.ok _) => (key, v) :: kept exempt selector rest
      | none => (key, keptInside (childSelector selector key) v) :: kept exempt selector rest
end

/-- An example without the keys that fail. -/
def keptExample (selector : Option String) (fields : Record) : Record :=
  match selector with
  | none => kept linker excluded "" fields
  | some selector => kept linker [] selector fields

variable (typeName : String)

mutual
/-- A warning for each key inside a value that fails, in the order in which the keys are read. -/
def failuresInside (selector : String) : Value → List Warning
  | .list (head :: _) => failuresInside selector head
  | .tuple (head :: _) => failuresInside selector head
  | .mapping fields => failures selector fields
  | _ => []
/-- A warning for each key that fails, there and inside the others. -/
def failures (selector : String) : List (String × Value) → List Warning
  | [] => []
  | (key, v) :: rest =>
    match linker selector key v with
    | some (.error e) =>
      e.warning (typeName ++ "." ++ childSelector selector key) :: failures selector rest
    | some (.ok _) => failures selector rest
    | none => failuresInside (childSelector selector key) v ++ failures selector rest
end

mutual
/-- A run over a value leaves a warning for each key that fails, and no other one. -/
theorem warnings_valueBy : ∀ (selector fieldName : String) (v : Value) (pass : Pass),
    (valueBy linker typeName selector fieldName v pass).2.warnings =
      pass.warnings ++ failuresInside linker typeName selector v
  | selector, fieldName, .list (head :: rest), pass => by
    rw [valueBy, failuresInside]
    exact warnings_valueBy selector fieldName head pass
  | selector, fieldName, .tuple (head :: rest), pass => by
    rw [valueBy, failuresInside]
    exact warnings_valueBy selector fieldName head pass
  | selector, fieldName, .mapping fields, pass => by
    have law := warnings_fieldsBy selector fields pass
    rw [valueBy, failuresInside, ← law]
    rcases fieldsBy linker typeName selector fields pass with ⟨_ | _, _⟩ <;> rfl
  | selector, fieldName, .list [], pass | selector, fieldName, .tuple [], pass
  | selector, fieldName, .null, pass | selector, fieldName, .bool _, pass
  | selector, fieldName, .int _, pass | selector, fieldName, .float _, pass
  | selector, fieldName, .text _, pass | selector, fieldName, .bytes _, pass
  | selector, fieldName, .foreign _ _, pass => by
    simp only [valueBy, failuresInside, List.append_nil]
theorem warnings_fieldsBy : ∀ (selector : String) (fields : List (String × Value)) (pass : Pass),
    (fieldsBy linker typeName selector fields pass).2.warnings =
      pass.warnings ++ failures linker typeName selector fields
  | selector, [], pass => by rw [fieldsBy, failures, List.append_nil]
  | selector, (key, v) :: rest, pass => by
    rw [fieldsBy, failures]
    cases linker selector key v with
    | some outcome =>
      cases outcome with
      | error e =>
        simp only
        rw [warnings_fieldsBy selector rest, List.append_assoc]
        rfl
      | ok field => exact warnings_fieldsBy selector rest pass
    | none =>
      have inside := warnings_valueBy (childSelector selector key) key v pass
      simp only
      rw [← List.append_assoc, ← inside]
      rcases valueBy linker typeName (childSelector selector key) key v pass with ⟨_ | f, between⟩
      · exact warnings_fieldsBy selector rest between
      · exact warnings_fieldsBy selector rest between
end

end

section
variable {linker : Linker}

/-- Whatever is taken out inside a value that is typed by its shape, it is still typed so. -/
def Linker.Steady (linker : Linker) : Prop :=
  ∀ selector key v inner, linker selector key v = none →
    linker selector key (keptInside linker inner v) = none

mutual
/-- A run over a value without the failing keys finds and names the same, whatever warnings there
are. -/
theorem valueBy_keptInside (steady : linker.Steady) (typeName : String) :
    ∀ (selector fieldName : String) (v : Value) (pass : Pass) (warnings : List Warning),
      valueBy linker typeName selector fieldName (keptInside linker selector v)
          { pass with warnings := warnings } =
        ((valueBy linker typeName selector fieldName v pass).1,
          { (valueBy linker typeName selector fieldName v pass).2 with warnings := warnings })
  | selector, fieldName, .list (head :: rest), pass, warnings => by
    rw [keptInside, valueBy, valueBy, valueBy_keptInside steady]
  | selector, fieldName, .tuple (head :: rest), pass, warnings => by
    rw [keptInside, valueBy, valueBy, valueBy_keptInside steady]
  | selector, fieldName, .mapping fields, pass, warnings => by
    rw [keptInside, valueBy, valueBy, fieldsBy_kept steady]
    rcases fieldsBy linker typeName selector fields pass with ⟨_ | _, _⟩ <;> rfl
  | selector, fieldName, .list [], pass, warnings | selector, fieldName, .tuple [], pass, warnings
  | selector, fieldName, .null, pass, warnings | selector, fieldName, .bool _, pass, warnings
  | selector, fieldName, .int _, pass, warnings | selector, fieldName, .float _, pass, warnings
  | selector, fieldName, .text _, pass, warnings | selector, fieldName, .bytes _, pass, warnings
  | selector, fieldName, .foreign _ _, pass, warnings => by
    simp only [keptInside, valueBy]
theorem fieldsBy_kept (steady : linker.Steady) (typeName : String) :
    ∀ (selector : String) (fields : List (String × Value)) (pass : Pass) (warnings : List Warning),
      fieldsBy linker typeName selector (kept linker [] selector fields)
          { pass with warnings := warnings } =
        ((fieldsBy linker typeName selector fields pass).1,
          { (fieldsBy linker typeName selector fields pass).2 with warnings := warnings })
  | selector, [], pass, warnings => by rw [kept, fieldsBy, fieldsBy]
  | selector, (key, v) :: rest, pass, warnings => by
    rw [kept, if_neg (by simp), fieldsBy]
    cases link : linker selector key v with
    | some outcome =>
      cases outcome with
      | error e =>
        exact fieldsBy_kept steady typeName selector rest { pass with
          warnings := pass.warnings ++ [e.warning (typeName ++ "." ++ childSelector selector key)] }
          warnings
      | ok field =>
        have others := fieldsBy_kept steady typeName selector rest pass warnings
        simp only
        rw [fieldsBy, link]
        simp only [others]
    | none =>
      have inside :=
        valueBy_keptInside steady typeName (childSelector selector key) key v pass warnings
      simp only
      rw [fieldsBy, steady _ _ _ _ link]
      simp only [inside]
      rcases valueBy linker typeName (childSelector selector key) key v pass with ⟨_ | f, between⟩
      · exact fieldsBy_kept steady typeName selector rest between warnings
      · have others := fieldsBy_kept steady typeName selector rest between warnings
        simp only [others]
end

/-- The keys that are not exempt remain as if there were no others. -/
theorem shown_kept (exempt : List String) (selector : String) (fields : List (String × Value)) :
    (kept linker exempt selector fields).filter (fun (key, _) => !exempt.contains key) =
      kept linker [] selector (fields.filter fun (key, _) => !exempt.contains key) := by
  induction fields with
  | nil => simp only [kept, List.filter_nil]
  | cons entry rest ih =>
    obtain ⟨key, v⟩ := entry
    cases h : exempt.contains key with
    | true =>
      rw [kept, if_pos h]
      simp only [List.filter_cons, h, Bool.not_true, Bool.false_eq_true, if_false, ih]
    | false =>
      rw [kept, if_neg (Bool.eq_false_iff.mp h)]
      simp only [List.filter_cons, h, Bool.not_false, if_true]
      rw [kept, if_neg (by simp), ← ih]
      rcases linker selector key v with _ | _ | _ <;>
        simp only [List.filter_cons, h, Bool.not_false, if_true]

theorem shown_keptExample (selector : Option String) (fields : Record) :
    shown selector (keptExample linker selector fields) =
      kept linker [] (selector.getD "") (shown selector fields) := by
  cases selector with
  | none => exact shown_kept excluded "" fields
  | some selector => rfl

end

section
variable {source : RecordSource} {site : Site} {typeName : String}

/-- Nothing is taken out of a text, so that it is the path of a file or not as before. -/
theorem isFilePath_keptInside (convention : MediaType.Convention) (linker : Linker)
    (selector : String) (v : Value) :
    Location.isFilePath convention (keptInside linker selector v) =
      Location.isFilePath convention v := by
  cases v with
  | list items => cases items <;> simp only [keptInside, Location.isFilePath]
  | tuple items => cases items <;> simp only [keptInside, Location.isFilePath]
  | _ => simp only [keptInside, Location.isFilePath]

theorem linkerFrom_eq_none_iff {selector key : String} {v : Value} :
    linkerFrom source site typeName selector key v = none ↔
      Strategy.choose site.convention site.config typeName
        (typeName ++ "." ++ childSelector selector key) key v = .ok .byShape := by
  unfold linkerFrom
  split
  · simp_all
  · exact linkOf?_eq_none_iff

theorem steady_linkerFrom : (linkerFrom source site typeName).Steady := by
  intro selector key v inner link
  rw [linkerFrom_eq_none_iff] at link ⊢
  rw [Strategy.choose_eq, isFilePath_keptInside, ← Strategy.choose_eq]
  exact link

end

/-- A key that fails has no bearing on the others, whatever the source of the records answers or
refuses. There is one warning for each such key, wherever it stands; without these keys the same
build finds the same fields, hands out the same names and leaves no warning. With the store as the
source this is what the build infers. -/
theorem outputFields_keptExample (b : Build) (source : RecordSource) (records : List Record)
    (selector : Option String) (given : Option Record) :
    let typeName := Record.sharedTypeName records
    let linker := linkerFrom source b.site typeName
    let fields := given.getD (Example.ofRecords records)
    let run := b.outputFieldsFrom source (records.map Value.mapping) selector given
    let rerun := b.outputFieldsFrom source (records.map Value.mapping) selector
      (some (keptExample linker selector fields))
    (∃ found, run.1 = .ok found ∧ rerun.1 = .ok found) ∧
      rerun.2.pass.namer = run.2.pass.namer ∧
      run.2.pass.warnings = b.pass.warnings ++
        failures linker typeName (selector.getD "") (shown selector fields) ∧
      rerun.2.pass.warnings = b.pass.warnings ∧
      b.outputFieldsFrom b.site.store.source = b.outputFields := by
  intro typeName linker fields run rerun
  have hrun : run = _ := b.outputFieldsFrom_mapping source records selector given
  have hrerun : rerun = _ := b.outputFieldsFrom_mapping source records selector
    (some (keptExample linker selector fields))
  have law := fieldsBy_kept (steady_linkerFrom : linker.Steady) typeName (selector.getD "")
    (shown selector fields) b.pass b.pass.warnings
  rw [← shown_keptExample] at law
  rw [hrun, hrerun]
  refine ⟨⟨_, rfl, ?found⟩, ?names, ?warnings, ?none, b.outputFieldsFrom_store⟩
  case found => exact congrArg (fun after => Except.ok (Dictionary.ofList after.1)) law
  case names => exact congrArg (fun after => after.2.namer) law
  case warnings => exact warnings_fieldsBy linker typeName _ _ b.pass
  case none => exact congrArg (fun after => after.2.warnings) law

end ContentSchema.OutputFields
