import ContentSchema.Proofs.FieldIsolation
import ContentSchema.Proofs.FilterRun
import ContentSchema.Proofs.NameSupply

/-! Inference that is repeated. All names that it asks for are remembered by then, so that it finds
the same, hands out no new name and adds the same warnings. -/
namespace ContentSchema

/-- A pass with more warnings. -/
def Pass.warned (pass : Pass) (added : List Warning) : Pass :=
  { pass with warnings := pass.warnings ++ added }

theorem Pass.warned_nil (pass : Pass) : pass.warned [] = pass := by
  rw [warned, List.append_nil]

theorem Pass.warned_warned (pass : Pass) (a b : List Warning) :
    (pass.warned a).warned b = pass.warned (a ++ b) := by
  simp only [warned, List.append_assoc]

/-- A run that finds something and forgets no name. Where the names that it leaves are remembered,
it finds the same again, and the state only gets what such a run adds every time. -/
structure Settles {σ α : Type} (names : σ → Namer) (adds : σ → σ) (run : σ → α × σ) (s : σ)
    (found : α) (after : σ) : Prop where
  first : run s = (found, after)
  kept : (names s).Extends (names after)
  again : ∀ later, (names after).Extends (names later) → run later = (found, adds later)

section
variable {σ α β : Type} {names : σ → Namer} {adds : σ → σ} {run : σ → α × σ} {found : α}

/-- A run that leaves every state as it is. -/
theorem Settles.of_pure (nothing : ∀ s, adds s = s) (pure : ∀ s, run s = (found, s)) (s : σ) :
    Settles names adds run s found s where
  first := pure s
  kept := .refl _
  again later _ := by rw [pure, nothing]

theorem Settles.map {s after : σ} (h : Settles names adds run s found after) (f : α → β) :
    Settles names adds (fun s => (f (run s).1, (run s).2)) s (f found) after where
  first := by rw [h.first]
  kept := h.kept
  again later kept := by rw [h.again later kept]

end

namespace OutputFields
variable (linker : Linker) (typeName : String)

mutual
theorem settles_valueBy : ∀ (selector fieldName : String) (v : Value) (pass : Pass), ∃ found after,
    Settles Pass.namer (fun later => later.warned (failuresInside linker typeName selector v))
      (valueBy linker typeName selector fieldName v) pass found after
  | selector, fieldName, .list (head :: rest), pass
  | selector, fieldName, .tuple (head :: rest), pass => by
    obtain ⟨found, after, inner⟩ := settles_valueBy selector fieldName head pass
    refine ⟨found.map fun f => .plain (.list f.type), after, ?_, inner.kept, fun later kept => ?_⟩
    · rw [valueBy, inner.first]
    · rw [valueBy, inner.again later kept, failuresInside]
  | selector, fieldName, .mapping fields, pass => by
    obtain ⟨_ | ⟨field, found⟩, after, inner⟩ := settles_fieldsBy selector fields pass
    · refine ⟨none, after, ?_, inner.kept, fun later kept => ?_⟩
      · rw [valueBy, inner.first]
      · rw [valueBy, inner.again later kept, failuresInside]
    · let named := after.namer.nameFor (typeName ++ "." ++ selector) none
      have asked : after.namer.Extends named.2 := after.namer.extends_nameFor _ none
      refine ⟨some (.plain (.named (.object named.1 (Dictionary.ofList (field :: found))))),
        { after with namer := named.2 }, ?_, inner.kept.trans asked, fun later kept => ?_⟩
      · rw [valueBy, inner.first]
      · rw [valueBy, inner.again later (asked.trans kept), failuresInside]
        simp only [Pass.warned, Namer.nameFor_again _ _ kept]
        rfl
  | selector, fieldName, .list [], pass | selector, fieldName, .tuple [], pass =>
    ⟨none, pass, by
      simp only [failuresInside]
      exact .of_pure Pass.warned_nil (fun pass => by rw [valueBy]) pass⟩
  | selector, fieldName, .null, pass | selector, fieldName, .bool _, pass
  | selector, fieldName, .int _, pass | selector, fieldName, .float _, pass
  | selector, fieldName, .text _, pass | selector, fieldName, .bytes _, pass
  | selector, fieldName, .foreign _ _, pass =>
    ⟨scalarField? fieldName _, pass, by
      simp only [failuresInside]
      exact .of_pure Pass.warned_nil (fun pass => by rw [valueBy] <;> simp) pass⟩
theorem settles_fieldsBy : ∀ (selector : String) (fields : List (String × Value)) (pass : Pass),
    ∃ found after,
      Settles Pass.namer (fun later => later.warned (failures linker typeName selector fields))
        (fieldsBy linker typeName selector fields) pass found after
  | selector, [], pass =>
    ⟨[], pass, by
      simp only [failures]
      exact .of_pure Pass.warned_nil (fun pass => by rw [fieldsBy]) pass⟩
  | selector, (key, v) :: rest, pass => by
    cases link : linker selector key v with
    | some outcome =>
      cases outcome with
      | error e =>
        let w := e.warning (typeName ++ "." ++ childSelector selector key)
        obtain ⟨found, after, others⟩ := settles_fieldsBy selector rest (pass.warned [w])
        refine ⟨found, after, ?_, others.kept, fun later kept => ?_⟩
        · rw [fieldsBy, link]
          exact others.first
        · rw [fieldsBy, failures, link]
          exact (others.again (later.warned [w]) kept).trans (by rw [Pass.warned_warned]; rfl)
      | ok field =>
        obtain ⟨found, after, others⟩ := settles_fieldsBy selector rest pass
        refine ⟨field :: found, after, ?_, others.kept, fun later kept => ?_⟩
        · rw [fieldsBy, link]
          simp only [others.first]
        · rw [fieldsBy, failures, link]
          simp only [others.again later kept]
    | none =>
      obtain ⟨first, between, inner⟩ :=
        settles_valueBy (childSelector selector key) key v pass
      obtain ⟨found, after, others⟩ := settles_fieldsBy selector rest between
      have rerun (later : Pass) (kept : after.namer.Extends later.namer) :=
        inner.again later (others.kept.trans kept)
      refine ⟨(first.map fun f => (key, f)).toList ++ found, after, ?_,
        inner.kept.trans others.kept, fun later kept => ?_⟩
      · rw [fieldsBy, link]
        simp only [inner.first]
        cases first <;> simp only [others.first] <;> rfl
      · rw [fieldsBy, failures, link]
        have last := others.again
          (later.warned (failuresInside linker typeName (childSelector selector key) v)) kept
        rw [Pass.warned_warned] at last
        simp only [rerun later kept]
        cases first <;> simp only [last] <;> rfl
end

end OutputFields

namespace FilterFields

theorem settles_nameAt (path stem ending : String) (n : Namer) :
    Settles id id (nameAt path stem ending) n (nameAt path stem ending n).1
      (nameAt path stem ending n).2 where
  first := rfl
  kept := n.extends_nameFor (path ++ ":" ++ ending) (some (stem ++ ending))
  again _ kept := Namer.nameFor_again (path ++ ":" ++ ending) (some (stem ++ ending)) kept

theorem settles_run :
    (∀ path stem v n, Settles id id (ofValue path stem v) n (ofValue path stem v n).1
      (ofValue path stem v n).2) ∧
    ∀ path stem fields n, Settles id id (ofFields path stem fields) n
      (ofFields path stem fields n).1 (ofFields path stem fields n).2 := by
  refine run_induction
    (P := fun path stem v n found after => Settles id id (ofValue path stem v) n found after)
    (Q := fun path stem fields n found after =>
      Settles id id (ofFields path stem fields) n found after)
    ?scalars ?containers ?others ?empty ?single ?unknown ?noField ?object ?nil ?skipped ?cons
  case scalars =>
    intro path stem w head rest s n members hs
    have named := settles_nameAt path stem "QueryList" n
    refine ⟨ofValue_scalars path stem n members hs, named.kept, fun later kept => ?_⟩
    rw [ofValue_scalars path stem later members hs, named.again later kept]
  case containers =>
    intro path stem w head rest n found after members hk ih
    have named := settles_nameAt path stem "QueryList" n
    refine ⟨?_, named.kept.trans ih.kept, fun later kept => ?_⟩
    · rw [ofValue_containers path stem n members hk, ih.first]
    · have known := named.again later (ih.kept.trans kept)
      rw [ofValue_containers path stem later members hk, known]
      simp only [id_eq, ih.again later kept]
  case others =>
    intro path stem w head rest n members hs hk
    exact Settles.of_pure (fun _ => rfl) (fun n => ofValue_others path stem n members hs hk) n
  case empty =>
    intro path stem w n none
    exact .of_pure (fun _ => rfl) (fun n => ofValue_empty path stem n none) n
  case single =>
    intro path stem w s n noSequence noMapping hs
    have named := settles_nameAt path stem (ending s) n
    refine ⟨?_, named.kept, fun later kept => ?_⟩
    · rw [ofValue_single path stem n noSequence noMapping, hs]
    · rw [ofValue_single path stem later noSequence noMapping, hs]
      simp only [id_eq, named.again later kept]
  case unknown =>
    intro path stem w n noSequence noMapping hs
    refine Settles.of_pure (fun _ => rfl) (fun n => ?_) n
    rw [ofValue_single path stem n noSequence noMapping, hs]
  case noField =>
    intro path stem fields n after ih
    refine ⟨?_, ih.kept, fun later kept => ?_⟩
    · rw [ofValue_mapping, ih.first]
    · rw [ofValue_mapping, ih.again later kept]
  case object =>
    intro path stem fields n found after ih some
    have named := settles_nameAt path stem "InputObject" after
    obtain ⟨entry, found, rfl⟩ := List.exists_cons_of_ne_nil some
    refine ⟨?_, ih.kept.trans named.kept, fun later kept => ?_⟩
    · rw [ofValue_mapping, ih.first]
    · rw [ofValue_mapping, ih.again later (named.kept.trans kept)]
      simp only [id_eq, named.again later kept]
  case nil => exact fun path stem n => Settles.of_pure (fun _ => rfl) (fun n => rfl) n
  case skipped =>
    intro path stem key v rest n between found after ihv ih
    refine ⟨?_, ihv.kept.trans ih.kept, fun later kept => ?_⟩
    · rw [ofFields_cons, ihv.first]
      exact ih.first
    · rw [ofFields_cons, ihv.again later (ih.kept.trans kept)]
      exact ih.again later kept
  case cons =>
    intro path stem key v rest n f between found after ihv ih
    refine ⟨?_, ihv.kept.trans ih.kept, fun later kept => ?_⟩
    · rw [ofFields_cons, ihv.first]
      simp only [ih.first]
    · rw [ofFields_cons, ihv.again later (ih.kept.trans kept)]
      simp only [id_eq, ih.again later kept]

/-- The filters of a record type or of a nested object, whatever the entries are. -/
theorem settles_ofEntries (entries : List Value) (place : Place) (given : Option Record)
    (path : Option String) (n : Namer) : ∃ found after,
      Settles id id (ofEntries entries place given path).run n found after := by
  unfold ofEntries
  cases Example.ofEntries entries given with
  | error e => exact ⟨_, n, Settles.of_pure (fun _ => rfl) (fun n => rfl) n⟩
  | ok fields =>
    cases place with
    | nested stem => exact ⟨_, _, (settles_run.2 (path.getD stem) stem fields n).map Except.ok⟩
    | root name =>
      cases hname : rootName entries name with
      | error e =>
        simp only [hname]
        exact ⟨_, n, Settles.of_pure (fun _ => rfl) (fun n => rfl) n⟩
      | ok typeName =>
        simp only [hname]
        exact ⟨_, _, (settles_run.2 (path.getD typeName) typeName _ n).map
          (withSort entries typeName)⟩

end FilterFields

namespace Build
variable {α : Type}

/-- A call that does as before when it is made again: its outcome is the same, it leaves the names
as they are, and it adds the same warnings. -/
structure Repeats (call : Build → α × Build) (b : Build) : Prop where
  outcome : (call (call b).2).1 = (call b).1
  names : (call (call b).2).2.pass.namer = (call b).2.pass.namer
  warnings : ∃ added, (call b).2.pass.warnings = b.pass.warnings ++ added ∧
    (call (call b).2).2.pass.warnings = (call b).2.pass.warnings ++ added

section
variable {call : Build → α × Build} {b : Build} {found : α}

theorem Repeats.of_eq (after later : Build) {added : List Warning} (first : call b = (found, after))
    (second : call after = (found, later)) (names : later.pass.namer = after.pass.namer)
    (warned : after.pass.warnings = b.pass.warnings ++ added)
    (again : later.pass.warnings = after.pass.warnings ++ added) : Repeats call b where
  outcome := by rw [first, second]
  names := by rw [first, second, names]
  warnings := ⟨added, by rw [first, warned], by rw [first, second, again]⟩

theorem Repeats.of_unchanged (h : call b = (found, b)) : Repeats call b :=
  .of_eq b b h h rfl (List.append_nil _).symm (List.append_nil _).symm

end

theorem repeats_outputFieldsFrom (b : Build) (source : RecordSource) (entries : List Value)
    (selector : Option String) (given : Option Record) :
    Repeats (fun b => b.outputFieldsFrom source entries selector given) b := by
  cases hfields : Example.ofEntries entries given with
  | error e =>
    have unchanged : b.outputFieldsFrom source entries selector given = (.error e, b) := by
      rw [outputFieldsFrom, hfields]
    exact .of_unchanged unchanged
  | ok fields =>
    cases htype : typeNameOf entries with
    | error e =>
      have unchanged : b.outputFieldsFrom source entries selector given = (.error e, b) := by
        rw [outputFieldsFrom, hfields, htype]
      exact .of_unchanged unchanged
    | ok typeName =>
      let linker := OutputFields.linkerFrom source b.site typeName
      let shown := OutputFields.shown selector fields
      let added := OutputFields.failures linker typeName (selector.getD "") shown
      obtain ⟨found, after, run⟩ :=
        OutputFields.settles_fieldsBy linker typeName (selector.getD "") shown b.pass
      have rerun := run.again after (.refl _)
      have warned := OutputFields.warnings_fieldsBy linker typeName (selector.getD "") shown b.pass
      rw [run.first] at warned
      have first : b.outputFieldsFrom source entries selector given =
          (.ok (Dictionary.ofList found), { b with pass := after }) := by
        simp only [outputFieldsFrom, hfields, htype, linker, shown, run.first]
      have second : Build.outputFieldsFrom { b with pass := after } source entries selector given =
          (.ok (Dictionary.ofList found), { b with pass := after.warned added }) := by
        simp only [outputFieldsFrom, hfields, htype, linker, shown, rerun, added]
      exact .of_eq _ _ first second rfl warned rfl

theorem repeats_filterFields (b : Build) (entries : List Value) (place : FilterFields.Place)
    (given : Option Record) (path : Option String) :
    Repeats (fun b => b.filterFields entries place given path) b := by
  obtain ⟨found, after, run⟩ :=
    FilterFields.settles_ofEntries entries place given path b.pass.namer
  have rerun : (FilterFields.ofEntries entries place given path).run (b.setNamer after).pass.namer =
      (found, after) := run.again after (.refl _)
  have first : b.filterFields entries place given path = (found, b.setNamer after) := by
    rw [filterFields, run.first]
  have second : (b.setNamer after).filterFields entries place given path =
      (found, b.setNamer after) := by
    rw [filterFields, rerun]
    rfl
  exact .of_eq _ _ first second rfl (List.append_nil _).symm (List.append_nil _).symm

/-- Output inference and filter inference do as before when they are repeated, in any state of a
build: they find the same types under the same names, leave the names as they are, and add the same
warnings. It does not matter what the store, or any other source of records, answers. -/
theorem repeats_inference (b : Build) (entries : List Value) (given : Option Record) :
    (∀ selector, Repeats (fun b => b.outputFields entries selector given) b) ∧
      (∀ source selector, Repeats (fun b => b.outputFieldsFrom source entries selector given) b) ∧
      ∀ place path, Repeats (fun b => b.filterFields entries place given path) b := by
  refine ⟨fun selector => ?_, fun source selector =>
    b.repeats_outputFieldsFrom source entries selector given,
    fun place path => b.repeats_filterFields entries place given path⟩
  have law := b.repeats_outputFieldsFrom b.site.store.source entries selector given
  have later := (b.outputFields entries selector given).2.outputFieldsFrom_store
  rw [b.site_outputFields] at later
  constructor
  · simpa only [outputFieldsFrom_store, later] using law.outcome
  · simpa only [outputFieldsFrom_store, later] using law.names
  · simpa only [outputFieldsFrom_store, later] using law.warnings

end Build
end ContentSchema
