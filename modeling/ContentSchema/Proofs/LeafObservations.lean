import ContentSchema.Proofs.DictionaryEntries
import ContentSchema.Proofs.FieldPath

/-! The leaves of a merged example. A leaf stands at a path exactly when it is the first thing that
the records show there and the first thing that they show at every shorter path can be gone
through. -/
namespace ContentSchema.Example
open Value (Holds)

/-- The first observation at a path is some value, and those on the way to it fit the steps. -/
def LeadsTo (values : List Value) (path : List PathStep) (v : Value) : Prop :=
  (observationsFrom values path).head? = some v ∧
    ∀ before step rest, path = before ++ step :: rest →
      ∃ w, (observationsFrom values before).head? = some w ∧ step.fits w = true

private theorem leadsTo_cons {values : List Value} {step : PathStep} {path : List PathStep}
    {v : Value} : LeadsTo values (step :: path) v ↔
      (∃ w, values.head? = some w ∧ step.fits w = true) ∧
        LeadsTo (values.flatMap step.below) path v := by
  constructor
  · rintro ⟨first, fit⟩
    refine ⟨fit [] step path rfl, first, ?_⟩
    rintro before s rest rfl
    exact fit (step :: before) s rest rfl
  · rintro ⟨fit, first, deeper⟩
    refine ⟨first, ?_⟩
    intro before s rest h
    cases before with
    | nil =>
      cases h
      exact fit
    | cons b before =>
      cases h
      exact deeper before s rest rfl

private theorem below_mapping (name : String) (fields : Record) :
    PathStep.below (.key name) (.mapping fields) = (observed? name fields).toList := by
  simp only [PathStep.below, observed?]
  cases Dictionary.get? fields name with
  | none => rfl
  | some w => cases w <;> rfl

theorem below_key (name : String) (values : List Value) :
    values.flatMap (PathStep.below (.key name)) = column name (mappings values) := by
  induction values with
  | nil => rfl
  | cons v values ih =>
    rw [List.flatMap_cons, ih]
    cases v with
    | mapping fields =>
      change _ = column name (fields :: mappings values)
      rw [below_mapping, column, column, List.filterMap_cons]
      cases observed? name fields <;> rfl
    | _ => rfl

theorem below_element (values : List Value) :
    values.flatMap (PathStep.below .element) = elements values := by
  unfold elements
  rw [List.filter_flatten]
  induction values with
  | nil => rfl
  | cons v values ih =>
    rw [List.flatMap_cons, ih]
    cases v <;> rfl

theorem column_eq_nil {name : String} {records : List Record} (h : name ∉ keys records) :
    column name records = [] := by
  unfold column
  rw [List.filterMap_eq_nil_iff]
  intro r hr
  have absent : Dictionary.get? r name = none := by
    rw [Dictionary.get?_eq_none_iff]
    intro hname
    apply h
    rw [keys, List.mem_eraseDups, List.mem_flatMap]
    exact ⟨r, hr, hname⟩
  rw [observed?, absent]

/-- Every field of the example is merged from its column. -/
theorem get?_ofRecords (records : List Record) (name : String) :
    Dictionary.get? (ofRecords records) name = merge (column name records) := by
  rw [ofRecords, Dictionary.get?_tabulate]
  split
  · rfl
  · rename_i h
    rw [column_eq_nil h, merge]

theorem merge_mapping (fields : Record) (rest : List Value) :
    merge (.mapping fields :: rest) =
      if (ofRecords (mappings (.mapping fields :: rest))).isEmpty then none
      else some (.mapping (ofRecords (mappings (.mapping fields :: rest)))) := by
  rw [merge]
  rfl

theorem merge_sequence {w : Value} (sequence : w.items?.isSome = true)
    (rest : List Value) :
    merge (w :: rest) = (merge (elements (w :: rest))).map fun v => .list [v] := by
  cases w with
  | list _ => rw [merge]
  | tuple _ => rw [merge]
  | _ => cases sequence

theorem merge_leaf {v : Value} (leaf : v.isLeaf = true) (rest : List Value) :
    merge (v :: rest) = some v := by
  cases v with
  | null => cases leaf
  | mapping _ => cases leaf
  | list _ => cases leaf
  | tuple _ => cases leaf
  | _ => simp [merge]

/-- The first value decides the shape: a mapping stands for all mappings among the values, a
sequence for the members of all sequences, and a leaf for itself. -/
theorem merge_cases {values : List Value} {u : Value} (h : merge values = some u) :
    ∃ w, values.head? = some w ∧
      (w.fields?.isSome = true ∧ u = .mapping (ofRecords (mappings values)) ∨
        w.items?.isSome = true ∧ (∃ member, merge (elements values) = some member ∧
          u = .list [member]) ∨
        w.isLeaf = true ∧ u = w) := by
  cases values with
  | nil => simp [merge] at h
  | cons w rest =>
    refine ⟨w, rfl, ?_⟩
    cases hw : w with
    | null =>
      rw [hw, merge] at h
      cases h
    | mapping fields =>
      rw [hw, merge_mapping] at h
      split at h
      · cases h
      · exact Or.inl ⟨rfl, (Option.some.inj h).symm⟩
    | list items =>
      rw [hw, merge_sequence rfl, Option.map_eq_some_iff] at h
      obtain ⟨member, hmember, rfl⟩ := h
      exact Or.inr (Or.inl ⟨rfl, member, hmember, rfl⟩)
    | tuple items =>
      rw [hw, merge_sequence rfl, Option.map_eq_some_iff] at h
      obtain ⟨member, hmember, rfl⟩ := h
      exact Or.inr (Or.inl ⟨rfl, member, hmember, rfl⟩)
    | _ =>
      rw [hw, merge_leaf rfl] at h
      exact Or.inr (Or.inr ⟨rfl, (Option.some.inj h).symm⟩)

theorem holds_key_iff (values : List Value) (name : String) (path : List PathStep)
    (v : Value) :
    (∃ u, merge values = some u ∧ Holds u (.key name :: path) v) ↔
      (∃ w, values.head? = some w ∧ PathStep.fits (.key name) w = true) ∧
        ∃ u, merge (column name (mappings values)) = some u ∧ Holds u path v := by
  constructor
  · rintro ⟨u, hu, holds⟩
    cases holds with
    | key found deeper =>
      obtain ⟨w, hw, shape⟩ := merge_cases hu
      rcases shape with ⟨fits, heq⟩ | ⟨_, _, _, heq⟩ | ⟨leaf, heq⟩
      · cases heq
        rw [get?_ofRecords] at found
        exact ⟨⟨w, hw, fits⟩, _, found, deeper⟩
      · cases heq
      · rw [← heq] at leaf
        cases leaf
  · rintro ⟨⟨w, hw, fits⟩, u, hu, deeper⟩
    cases values with
    | nil => cases hw
    | cons first rest =>
      cases hw
      cases w with
      | mapping fields =>
        rw [← get?_ofRecords] at hu
        refine ⟨_, ?_, .key hu deeper⟩
        rw [merge_mapping, if_neg]
        intro empty
        rw [List.isEmpty_iff.mp empty] at hu
        cases hu
      | _ => cases fits

theorem holds_element_iff (values : List Value) (path : List PathStep) (v : Value) :
    (∃ u, merge values = some u ∧ Holds u (.element :: path) v) ↔
      (∃ w, values.head? = some w ∧ PathStep.fits .element w = true) ∧
        ∃ u, merge (elements values) = some u ∧ Holds u path v := by
  constructor
  · rintro ⟨u, hu, holds⟩
    cases holds with
    | element sequence found deeper =>
      obtain ⟨w, hw, shape⟩ := merge_cases hu
      rcases shape with ⟨_, heq⟩ | ⟨fits, member, hmember, heq⟩ | ⟨leaf, heq⟩
      · rw [heq] at sequence
        cases sequence
      · rw [heq] at sequence
        cases sequence
        rw [List.mem_singleton.mp found] at deeper
        exact ⟨⟨w, hw, fits⟩, member, hmember, deeper⟩
      · rw [heq] at sequence
        cases w with
        | list _ => cases leaf
        | tuple _ => cases leaf
        | _ => cases sequence
  · rintro ⟨⟨w, hw, fits⟩, u, hu, deeper⟩
    cases values with
    | nil => cases hw
    | cons first rest =>
      cases hw
      refine ⟨.list [u], ?_, .element rfl (List.mem_singleton_self u) deeper⟩
      rw [merge_sequence fits, hu, Option.map_some]

/-- A leaf is found in what is merged from some values exactly where they lead to it. -/
theorem merge_holds_iff {v : Value} (leaf : v.isLeaf = true) (path : List PathStep)
    (values : List Value) :
    (∃ u, merge values = some u ∧ Holds u path v) ↔ LeadsTo values path v := by
  induction path generalizing values with
  | nil =>
    constructor
    · rintro ⟨u, hu, holds⟩
      cases holds
      obtain ⟨w, hw, ⟨_, heq⟩ | ⟨_, _, _, heq⟩ | ⟨_, heq⟩⟩ := merge_cases hu
      · rw [heq] at leaf
        cases leaf
      · rw [heq] at leaf
        cases leaf
      · refine ⟨heq ▸ hw, ?_⟩
        intro before step rest h
        cases before <;> cases h
    · rintro ⟨first, _⟩
      cases values with
      | nil => cases first
      | cons w rest =>
        cases first
        exact ⟨v, merge_leaf leaf rest, .here v⟩
  | cons step path ih =>
    rw [leadsTo_cons]
    cases step with
    | key name => rw [below_key, ← ih, holds_key_iff]
    | element => rw [below_element, ← ih, holds_element_iff]

/-- The example of some records holds a leaf exactly where it is the first observation and every
shorter path first shows a container of the kind that the next step needs. -/
theorem ofRecords_holds_iff (records : List Record) (path : List PathStep) {v : Value}
    (leaf : v.isLeaf = true) :
    Holds (.mapping (ofRecords records)) path v ↔
      (observations records path).head? = some v ∧
        ∀ before step rest, path = before ++ step :: rest →
          ∃ w, (observations records before).head? = some w ∧ step.fits w = true := by
  change _ ↔ LeadsTo (records.map Value.mapping) path v
  have all : mappings (records.map Value.mapping) = records := by
    rw [mappings, List.filterMap_map]
    exact List.filterMap_some
  cases path with
  | nil =>
    constructor
    · intro holds
      cases holds
      cases leaf
    · rintro ⟨first, _⟩
      cases records with
      | nil => cases first
      | cons r records =>
        cases first
        cases leaf
  | cons step path =>
    rw [leadsTo_cons]
    cases step with
    | key name =>
      rw [below_key, all, ← merge_holds_iff leaf, ← get?_ofRecords]
      constructor
      · intro holds
        cases holds with
        | key found deeper =>
          refine ⟨?_, _, found, deeper⟩
          cases records with
          | nil => cases found
          | cons r records => exact ⟨.mapping r, rfl, rfl⟩
      · rintro ⟨_, child, found, deeper⟩
        exact .key found deeper
    | element =>
      constructor
      · intro holds
        cases holds with
        | element sequence _ _ => cases sequence
      · rintro ⟨⟨w, hw, fits⟩, _⟩
        cases records with
        | nil => cases hw
        | cons r records =>
          cases hw
          cases fits

/-- The first record that has a usable value decides, however deep the value stands. -/
theorem ofRecords_holds_first_leaf :
    Value.isLeaf (.int 1) = true ∧
      Holds (.mapping (ofRecords
        [[("a", .null)], [("a", .tuple [.null, .mapping [("b", .null)]])], [("a", .text "x")],
          [("a", .list [.mapping [("b", .int 1)], .mapping [("b", .int 2)]])]]))
        [.key "a", .element, .key "b"] (.int 1) := by
  refine ⟨rfl, (ofRecords_holds_iff _ _ rfl).mpr ⟨rfl, ?_⟩⟩
  intro before step rest h
  rcases before with _ | ⟨_, _ | ⟨_, _ | ⟨_, before⟩⟩⟩
  · cases h
    exact ⟨_, rfl, rfl⟩
  · cases h
    exact ⟨_, rfl, rfl⟩
  · cases h
    exact ⟨_, rfl, rfl⟩
  · cases before <;> cases h

end ContentSchema.Example
