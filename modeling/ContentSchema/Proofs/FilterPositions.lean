import ContentSchema.Proofs.FieldPath
import ContentSchema.Proofs.FilterCalls
import ContentSchema.Proofs.FilterRun
import ContentSchema.Proofs.NameSupply

/-! The positions of filter inputs in one result. Their names are remembered for the text of the
position and the ending of the name. -/
namespace ContentSchema.FilterFields

/-- How the name of a filter input ends, by the comparisons that it offers. -/
def endingOf (fields : Dictionary FilterField) : String :=
  match Dictionary.get? fields "in", Dictionary.get? fields "eq" with
  | some ⟨.list _, _⟩, _ => "QueryList"
  | _, some ⟨.scalar s, _⟩ => ending s
  | _, _ => "InputObject"

/-- A filter input by its position in a type. An input that offers an enumeration is for sorting. -/
inductive FilterAt : LinkedType → List PathStep → String → Dictionary FilterField → Prop where
  | here {name : String} {fields : Dictionary FilterField}
      (noEnum : ∀ key f enumName values, Dictionary.get? fields key = some f →
        f.type ≠ .named (.enum enumName values)) :
      FilterAt (.named (.input name fields)) [] name fields
  | element {owner name : String} {fields inner : Dictionary FilterField} {t : LinkedType}
      {default : Value} {path : List PathStep}
      (found : Dictionary.get? fields "in" = some ⟨.list t, default⟩)
      (deeper : FilterAt t path name inner) :
      FilterAt (.named (.input owner fields)) (.element :: path) name inner
  | key {owner key name : String} {fields inner : Dictionary FilterField} {f : FilterField}
      {path : List PathStep} (found : Dictionary.get? fields key = some f)
      (deeper : FilterAt f.type path name inner) :
      FilterAt (.named (.input owner fields)) (.key key :: path) name inner

/-- A filter input by its position below some fields. -/
def FilterBelow (filters : Dictionary FilterField) (path : List PathStep) (name : String)
    (fields : Dictionary FilterField) : Prop :=
  ∃ key f rest, path = .key key :: rest ∧ Dictionary.get? filters key = some f ∧
    FilterAt f.type rest name fields

/-- The path text of a position below a path. -/
def pathAt : String → List PathStep → String
  | path, [] => path
  | path, .key key :: steps => pathAt (path ++ "." ++ key) steps
  | path, .element :: steps => pathAt (path ++ "[]") steps

theorem pathAt_eq_append (path : String) (steps : List PathStep) :
    pathAt path steps = path ++ pathAt "" steps := by
  induction steps generalizing path with
  | nil => simp [pathAt]
  | cons step steps ih =>
    cases step with
    | key key =>
      rw [pathAt, pathAt, ih, ih ("" ++ "." ++ key)]
      simp only [String.append_assoc, String.empty_append]
    | element =>
      rw [pathAt, pathAt, ih, ih ("" ++ "[]")]
      simp only [String.append_assoc, String.empty_append]

/-- All filter inputs in a type have the names remembered for their paths and endings. -/
def NamedBy (n : Namer) (path : String) (t : LinkedType) : Prop :=
  ∀ steps name fields, FilterAt t steps name fields →
    n.answer? (pathAt path steps ++ ":" ++ endingOf fields) = some name

section
variable {n later : Namer} {path : String}

theorem NamedBy.mono {t : LinkedType} (h : NamedBy n path t) (kept : n.Extends later) :
    NamedBy later path t :=
  fun steps name fields position => kept _ _ (h steps name fields position)

theorem namedBy_scalar (s : Scalar) : NamedBy n path (.scalar s) :=
  fun _ _ _ position => nomatch position

theorem namedBy_list (t : LinkedType) : NamedBy n path (.list t) :=
  fun _ _ _ position => nomatch position

theorem namedBy_input {name : String} {fields : Dictionary FilterField}
    (own : n.answer? (path ++ ":" ++ endingOf fields) = some name)
    (member : ∀ t default, Dictionary.get? fields "in" = some ⟨.list t, default⟩ →
      NamedBy n (path ++ "[]") t)
    (each : ∀ key f, Dictionary.get? fields key = some f → NamedBy n (path ++ "." ++ key) f.type) :
    NamedBy n path (.named (.input name fields)) := by
  intro steps inner innerFields position
  cases position with
  | here => exact own
  | element found deeper =>
    have below := member _ _ found _ inner innerFields deeper
    exact below
  | key found deeper =>
    have below := each _ _ found _ inner innerFields deeper
    exact below

/-- Operators compare with scalars. -/
theorem eq_scalar_of_mem_operators {kind : Kind} {key : String} {f : FilterField}
    (h : (key, f) ∈ operators kind) : ∃ s, f = plain (.scalar s) := by
  unfold operators at h
  split at h
  · cases h
  · rename_i s _
    refine ⟨s, ?_⟩
    rcases List.mem_append.mp h with h | h
    · rcases List.mem_pair.mp h with heq | heq <;> cases heq <;> rfl
    · split at h
      · rcases List.mem_pair.mp h with heq | heq <;> cases heq <;> rfl
      · cases h

theorem namedBy_scalars {kind : Kind} {s : Scalar} {name : String}
    (hs : Scalar.ofKind? kind = some s) (own : n.answer? (path ++ ":" ++ "QueryList") = some name) :
    NamedBy n path (.named (.input name (operators kind ++ [("in", plain (.list (.scalar s)))]))) := by
  apply namedBy_input
  · obtain ⟨eq, _, noMember⟩ := get?_operators hs
    have ending : endingOf (operators kind ++ [("in", plain (.list (.scalar s)))]) = "QueryList" := by
      rw [endingOf, Dictionary.get?_append, noMember]
      rfl
    rw [ending]
    exact own
  · intro t default found
    rcases List.mem_append.mp (Dictionary.mem_of_get? found) with hmem | hmem
    · obtain ⟨_, heq⟩ := eq_scalar_of_mem_operators hmem
      cases heq
    · cases List.mem_singleton.mp hmem
      exact namedBy_scalar s
  · intro key f found
    rcases List.mem_append.mp (Dictionary.mem_of_get? found) with hmem | hmem
    · obtain ⟨_, rfl⟩ := eq_scalar_of_mem_operators hmem
      exact namedBy_scalar _
    · cases List.mem_singleton.mp hmem
      exact namedBy_list _

theorem namedBy_single {kind : Kind} {s : Scalar} {name : String}
    (hs : Scalar.ofKind? kind = some s) (own : n.answer? (path ++ ":" ++ ending s) = some name) :
    NamedBy n path (.named (.input name (operators kind))) := by
  apply namedBy_input
  · obtain ⟨eq, _, noMember⟩ := get?_operators hs
    rw [endingOf, noMember, eq]
    exact own
  · intro t default found
    obtain ⟨_, heq⟩ := eq_scalar_of_mem_operators (Dictionary.mem_of_get? found)
    cases heq
  · intro key f found
    obtain ⟨_, rfl⟩ := eq_scalar_of_mem_operators (Dictionary.mem_of_get? found)
    exact namedBy_scalar _

theorem namedBy_containers {t : LinkedType} {name : String}
    (own : n.answer? (path ++ ":" ++ "QueryList") = some name) (member : NamedBy n (path ++ "[]") t) :
    NamedBy n path (.named (.input name [("in", plain (.list t))])) := by
  apply namedBy_input
  · exact own
  · intro u default found
    cases found
    exact member
  · intro key f found
    cases List.mem_singleton.mp (Dictionary.mem_of_get? found)
    exact namedBy_list t

theorem namedBy_object {name : String} {fields : Dictionary FilterField}
    (own : n.answer? (path ++ ":" ++ "InputObject") = some name)
    (inputs : ∀ key f, (key, f) ∈ fields → ∃ name fields, f.type = .named (.input name fields))
    (each : ∀ key f, (key, f) ∈ fields → NamedBy n (path ++ "." ++ key) f.type) :
    NamedBy n path (.named (.input name fields)) := by
  have isInput {key : String} {f : FilterField} (found : Dictionary.get? fields key = some f) :
      ∃ name fields, f.type = .named (.input name fields) :=
    inputs key f (Dictionary.mem_of_get? found)
  apply namedBy_input
  · have ending : endingOf fields = "InputObject" := by
      unfold endingOf
      split
      · rename_i found
        obtain ⟨_, _, heq⟩ := isInput found
        cases heq
      · rename_i found _
        obtain ⟨_, _, heq⟩ := isInput found
        cases heq
      · rfl
    rw [ending]
    exact own
  · intro t default found
    obtain ⟨_, _, heq⟩ := isInput found
    cases heq
  · exact fun key f found => each key f (Dictionary.mem_of_get? found)

end

section
variable (path stem ending : String) (n : Namer)

theorem answer?_nameAt : (nameAt path stem ending n).2.answer? (path ++ ":" ++ ending) =
    some (nameAt path stem ending n).1 :=
  n.answer?_nameFor (path ++ ":" ++ ending) (some (stem ++ ending))

theorem grows_nameAt : n.Grows (nameAt path stem ending n).2 :=
  n.grows_nameFor (path ++ ":" ++ ending) (some (stem ++ ending))

end

/-- What the run over a value leaves behind. -/
private structure FilterNamed (path : String) (n : Namer) (found : Option FilterField)
    (after : Namer) : Prop where
  grows : n.Grows after
  isInput : ∀ f, found = some f → ∃ name fields, f.type = .named (.input name fields)
  named : ∀ f, found = some f → NamedBy after path f.type

/-- What the run over the fields of a mapping leaves behind. -/
private structure FiltersNamed (path : String) (n : Namer) (found : Dictionary FilterField)
    (after : Namer) : Prop where
  grows : n.Grows after
  isInput : ∀ key f, (key, f) ∈ found → ∃ name fields, f.type = .named (.input name fields)
  named : ∀ key f, (key, f) ∈ found → NamedBy after (path ++ "." ++ key) f.type

private theorem FilterNamed.none (path : String) (n : Namer) : FilterNamed path n none n :=
  ⟨.refl n, nofun, nofun⟩

private theorem FilterNamed.ofInput {path name : String} {n after : Namer}
    {fields : Dictionary FilterField} (grows : n.Grows after)
    (named : NamedBy after path (.named (.input name fields))) :
    FilterNamed path n (some (input name fields)) after := by
  refine ⟨grows, fun f hf => ?_, fun f hf => ?_⟩
  · cases hf
    exact ⟨name, fields, rfl⟩
  · cases hf
    exact named

private theorem run_named :
    (∀ path stem v n, FilterNamed path n (ofValue path stem v n).1 (ofValue path stem v n).2) ∧
      ∀ path stem fields n, FiltersNamed path n (ofFields path stem fields n).1
        (ofFields path stem fields n).2 := by
  refine run_induction
    (P := fun path _ _ n found after => FilterNamed path n found after)
    (Q := fun path _ _ n found after => FiltersNamed path n found after)
    ?scalars ?containers ?others ?empty ?single ?unknown ?noField ?object ?nil ?skipped ?cons
  case scalars =>
    intro path stem w head rest s n _ hs
    apply FilterNamed.ofInput (grows_nameAt path stem "QueryList" n)
    exact namedBy_scalars hs (answer?_nameAt path stem "QueryList" n)
  case containers =>
    intro path stem w head rest n found after _ _ ih
    refine ⟨(grows_nameAt path stem "QueryList" n).trans ih.grows, fun f hf => ?_, fun f hf => ?_⟩
    · obtain ⟨_, _, rfl⟩ := Option.map_eq_some_iff.mp hf
      exact ⟨_, _, rfl⟩
    · obtain ⟨inner, hinner, rfl⟩ := Option.map_eq_some_iff.mp hf
      -- The list was named before the run over its member, which keeps the name.
      apply namedBy_containers
      · exact ih.grows.kept _ _ (answer?_nameAt path stem "QueryList" n)
      · exact ih.named inner hinner
  case others => exact fun path _ _ _ _ n _ _ _ => .none path n
  case empty => exact fun path _ _ n _ => .none path n
  case single =>
    intro path stem w s n _ _ hs
    apply FilterNamed.ofInput (grows_nameAt path stem (ending s) n)
    exact namedBy_single hs (answer?_nameAt path stem (ending s) n)
  case unknown => exact fun path _ _ n _ _ _ => .none path n
  case noField => exact fun _ _ _ _ _ ih => ⟨ih.grows, nofun, nofun⟩
  case object =>
    intro path stem fields n found after ih _
    have grown := grows_nameAt path stem "InputObject" after
    apply FilterNamed.ofInput (ih.grows.trans grown)
    apply namedBy_object
    · exact answer?_nameAt path stem "InputObject" after
    · exact ih.isInput
    · exact fun key f hmem => (ih.named key f hmem).mono grown.kept
  case nil => exact fun _ _ n => ⟨.refl n, nofun, nofun⟩
  case skipped =>
    intro path stem key v rest n between found after ihv ih
    exact ⟨ihv.grows.trans ih.grows, ih.isInput, ih.named⟩
  case cons =>
    intro path stem key v rest n f between found after ihv ih
    refine ⟨ihv.grows.trans ih.grows, fun k g hmem => ?_, fun k g hmem => ?_⟩
    · rcases List.mem_cons.mp hmem with heq | hmem
      · cases heq
        exact ihv.isInput f rfl
      · exact ih.isInput k g hmem
    · rcases List.mem_cons.mp hmem with heq | hmem
      · cases heq
        exact (ihv.named f rfl).mono ih.grows.kept
      · exact ih.named k g hmem

/-- The sort input is no filter and holds none. -/
theorem not_filterAt_sortField {records : List Record} {typeName name : String} {sort : FilterField}
    (h : sortField records typeName = some sort) {steps : List PathStep}
    {fields : Dictionary FilterField} : ¬ FilterAt sort.type steps name fields := by
  intro position
  simp only [sortField] at h
  split at h
  · cases h
  · cases h
    cases position with
    | here noEnum => exact noEnum "order" _ _ _ rfl rfl
    | element found deeper => cases found
    | key found deeper =>
      rcases List.mem_pair.mp (Dictionary.mem_of_get? found) with heq | heq
      · cases heq
        cases deeper
      · cases heq
        cases deeper

/-- What some records are filtered by: the fields of one run, and the sort input perhaps. -/
private theorem ofEntries_records (records : List Record) (place : Place) (given : Option Record)
    (path : Option String) (n : Namer) :
    ∃ start stem fields filters,
      ofEntries (records.map Value.mapping) place given path n =
        (.ok filters, (ofFields start stem fields n).2) ∧
      (filters = (ofFields start stem fields n).1 ∨
        ∃ typeName sort, sortField records typeName = some sort ∧
          filters = Dictionary.put (ofFields start stem fields n).1 "sortBy" sort) := by
  cases place with
  | nested stem => exact ⟨_, stem, _, _, ofEntries_nested records given path n stem, Or.inl rfl⟩
  | root name =>
    refine ⟨_, _, _, _, ofEntries_root records given path n name, ?_⟩
    cases sorted : sortInput? records (rootTypeName records name) with
    | none => exact Or.inl rfl
    | some sort => exact Or.inr ⟨_, sort, sortField_of_sortInput? sorted, rfl⟩

/-- Every filter input of a result has the name remembered for its path and its ending. -/
theorem answer?_of_filterBelow (records : List Record) (place : Place) (given : Option Record)
    (path : Option String) {n : Namer} (faithful : n.Faithful) :
    ∃ filters after start, ofEntries (records.map Value.mapping) place given path n =
        (.ok filters, after) ∧ after.Faithful ∧
      ∀ steps name fields, FilterBelow filters steps name fields →
        after.answer? (start ++ pathAt "" steps ++ ":" ++ endingOf fields) = some name := by
  obtain ⟨start, stem, fields, filters, heq, hfilters⟩ := ofEntries_records records place given path n
  have run := run_named.2 start stem fields n
  refine ⟨filters, _, start, heq, run.grows.faithful faithful, ?_⟩
  rintro steps name inner ⟨key, f, rest, rfl, found, position⟩
  have hmem : (key, f) ∈ (ofFields start stem fields n).1 := by
    rcases hfilters with rfl | ⟨typeName, sort, hsort, rfl⟩
    · exact Dictionary.mem_of_get? found
    · rw [Dictionary.get?_put] at found
      split at found
      · cases found
        exact absurd position (not_filterAt_sortField hsort)
      · exact Dictionary.mem_of_get? found
  rw [← pathAt_eq_append]
  exact run.named key f hmem rest name inner position

private theorem eq_of_append_colon_eq {a b e f : List Char} (he : ':' ∉ e) (hf : ':' ∉ f)
    (h : a ++ ':' :: e = b ++ ':' :: f) : a = b ∧ e = f := by
  rcases List.append_eq_append_iff.mp h with ⟨c, hb, hc⟩ | ⟨c, ha, hc⟩
  · cases c with
    | nil =>
      rw [List.append_nil] at hb
      exact ⟨hb.symm, (List.cons.inj hc).2⟩
    | cons x c =>
      rw [(List.cons.inj hc).2] at he
      exact absurd (List.mem_append_right c List.mem_cons_self) he
  · cases c with
    | nil =>
      rw [List.append_nil] at ha
      exact ⟨ha, (List.cons.inj hc).2.symm⟩
    | cons x c =>
      rw [(List.cons.inj hc).2] at hf
      exact absurd (List.mem_append_right c List.mem_cons_self) hf

theorem colon_notMem_endingOf (fields : Dictionary FilterField) : ':' ∉ (endingOf fields).toList := by
  unfold endingOf
  split
  · decide
  · rename_i s _ _ _
    cases s <;> decide
  · decide

/-- A path and the ending after it can be told from their text. -/
theorem append_ending_inj {a b : String} (f g : Dictionary FilterField) :
    a ++ ":" ++ endingOf f = b ++ ":" ++ endingOf g ↔ a = b ∧ endingOf f = endingOf g := by
  constructor
  · intro h
    have chars : a.toList ++ ':' :: (endingOf f).toList = b.toList ++ ':' :: (endingOf g).toList := by
      simpa using congrArg String.toList h
    obtain ⟨hab, hfg⟩ :=
      eq_of_append_colon_eq (colon_notMem_endingOf f) (colon_notMem_endingOf g) chars
    exact ⟨String.toList_inj.mp hab, String.toList_inj.mp hfg⟩
  · rintro ⟨rfl, hfg⟩
    rw [hfg]

end ContentSchema.FilterFields
