import ContentSchema.Proofs.ExampleShapes

/-! The normal form of examples. Merging leaves every value in it, and exactly what is in it is left
as it is by merging it once more. -/
namespace ContentSchema

namespace Value

/-- No null and nothing empty anywhere inside, every sequence a list of one member, and no key
twice. -/
inductive IsNormal : Value → Prop where
  | leaf {v : Value} (leaf : v.isLeaf = true) : IsNormal v
  | list {v : Value} (member : IsNormal v) : IsNormal (.list [v])
  | mapping {fields : Record} (some : fields ≠ []) (distinct : (Dictionary.keys fields).Nodup)
      (each : ∀ field ∈ fields, IsNormal field.2) : IsNormal (.mapping fields)

namespace IsNormal
variable {v w : Value}

theorem isNull_eq_false (h : v.IsNormal) : v.isNull = false := by
  cases h with
  | leaf leaf =>
    cases v with
    | null => cases leaf
    | _ => rfl
  | list _ => rfl
  | mapping _ _ _ => rfl

theorem ne_empty (h : v.IsNormal) : v ≠ .mapping [] := by
  rintro rfl
  cases h with
  | leaf leaf => cases leaf
  | mapping some _ _ => exact some rfl

/-- A sequence in normal form is a list of one member. -/
theorem eq_singleton {items : List Value} (h : v.IsNormal) (sequence : v.items? = some items) :
    ∃ member, v = .list [member] := by
  cases h with
  | leaf leaf =>
    cases v with
    | list _ => cases leaf
    | tuple _ => cases leaf
    | _ => cases sequence
  | list _ => exact ⟨_, rfl⟩
  | mapping _ _ _ => cases sequence

/-- Whatever stands inside a value in normal form is in normal form, too. -/
theorem of_holds {path : List PathStep} (h : v.IsNormal) (holds : v.Holds path w) :
    w.IsNormal := by
  induction holds with
  | here => exact h
  | key found _ ih =>
    cases h with
    | leaf leaf => cases leaf
    | mapping _ _ each => exact ih (each _ (Dictionary.mem_of_get? found))
  | element sequence found _ ih =>
    obtain ⟨member, rfl⟩ := h.eq_singleton sequence
    cases sequence
    cases h with
    | leaf leaf => cases leaf
    | list member =>
      rw [List.mem_singleton.mp found] at ih
      exact ih member

end IsNormal
end Value

namespace Example

/-- Induction along the merging of some values: from the columns of their mappings, or from the
members of their sequences. -/
theorem merge_induction {P : List Value → Prop} (nil : P []) (null : ∀ rest, P (.null :: rest))
    (mapping : ∀ fields rest, (∀ key, P (column key (mappings (.mapping fields :: rest)))) →
      P (.mapping fields :: rest))
    (sequence : ∀ w rest, w.items?.isSome = true → P (elements (w :: rest)) → P (w :: rest))
    (leaf : ∀ v rest, v.isLeaf = true → P (v :: rest)) (values : List Value) : P values := by
  induction values using merge.induct with
  | case1 => exact nil
  | case2 rest => exact null rest
  | case3 fields rest _ _ _ ih | case4 fields rest _ _ _ ih => exact mapping fields rest ih
  | case5 items rest ih | case6 items rest ih => exact sequence _ rest rfl ih
  | case7 v rest noNull noMapping noList noTuple =>
    refine leaf v rest ?_
    cases v with
    | null => exact absurd rfl noNull
    | mapping fields => exact absurd rfl (noMapping fields)
    | list items => exact absurd rfl (noList items)
    | tuple items => exact absurd rfl (noTuple items)
    | _ => rfl

/-- The fields of an example are in normal form when what is merged from every column is. -/
private theorem isNormal_field {records : List Record}
    (columns : ∀ key u, merge (column key records) = some u → u.IsNormal)
    {field : String × Value} (mem : field ∈ ofRecords records) : field.2.IsNormal := by
  have found : Dictionary.get? (ofRecords records) field.1 = some field.2 :=
    Dictionary.get?_eq_of_mem (nodup_keys_ofRecords records) mem
  rw [get?_ofRecords] at found
  exact columns _ _ found

/-- Merging leaves a value in normal form. -/
theorem isNormal_of_merge {values : List Value} {u : Value} (merged : merge values = some u) :
    u.IsNormal := by
  induction values using merge_induction generalizing u with
  | nil =>
    rw [merge] at merged
    cases merged
  | null rest =>
    rw [merge] at merged
    cases merged
  | mapping fields rest ih =>
    rw [merge_mapping] at merged
    split at merged
    · cases merged
    · rename_i some
      cases merged
      refine .mapping (fun empty => some (List.isEmpty_iff.mpr empty)) (nodup_keys_ofRecords _) ?_
      exact fun field mem => isNormal_field (fun key _ => ih key) mem
  | sequence w rest sequence ih =>
    rw [merge_sequence sequence, Option.map_eq_some_iff] at merged
    obtain ⟨member, inner, rfl⟩ := merged
    exact .list (ih inner)
  | leaf v rest leaf =>
    rw [merge_leaf leaf] at merged
    cases merged
    exact .leaf leaf

theorem isNormal_of_mem_ofRecords {records : List Record} {field : String × Value}
    (mem : field ∈ ofRecords records) : field.2.IsNormal :=
  isNormal_field (fun _ _ => isNormal_of_merge) mem

/-- A value is merged to itself exactly when it is in normal form. -/
theorem merge_singleton_iff {v : Value} : merge [v] = some v ↔ v.IsNormal := by
  refine ⟨isNormal_of_merge, fun normal => ?_⟩
  induction normal with
  | leaf leaf => exact merge_leaf leaf []
  | @list v member ih =>
    have own : elements [.list [v]] = [v] := by
      simp [elements, Value.items?, member.isNull_eq_false]
    rw [merge_sequence rfl, own, ih, Option.map_some]
  | mapping some distinct _ ih =>
    exact merge_singleton_mapping some (ofRecords_singleton distinct ih)

/-- A record is its own example exactly when no key is in it twice and its values are in normal
form. -/
theorem ofRecords_singleton_iff {r : Record} :
    ofRecords [r] = r ↔ (Dictionary.keys r).Nodup ∧ ∀ field ∈ r, field.2.IsNormal := by
  constructor
  · intro same
    rw [← same]
    exact ⟨nodup_keys_ofRecords [r], fun field => isNormal_of_mem_ofRecords⟩
  · rintro ⟨distinct, each⟩
    exact ofRecords_singleton distinct fun field mem => merge_singleton_iff.mpr (each field mem)

/-- Nothing inside an example is null, an empty mapping or a sequence other than a list of one
member, and the example of an example is the same one, keys in the same order. -/
theorem ofRecords_normal_idempotent (records : List Record) :
    (∀ path v, path ≠ [] → Value.Holds (.mapping (ofRecords records)) path v →
      v.isNull = false ∧ v ≠ .mapping [] ∧
        ∀ items, v.items? = some items → ∃ member, v = .list [member]) ∧
      ofRecords [ofRecords records] = ofRecords records := by
  constructor
  · intro path v below holds
    have normal : v.IsNormal := by
      cases holds with
      | here => exact absurd rfl below
      | key found deeper =>
        exact (isNormal_of_mem_ofRecords (Dictionary.mem_of_get? found)).of_holds deeper
      | element sequence _ _ => cases sequence
    exact ⟨normal.isNull_eq_false, normal.ne_empty, fun _ => normal.eq_singleton⟩
  · exact ofRecords_singleton_iff.mpr
      ⟨nodup_keys_ofRecords records, fun _ => isNormal_of_mem_ofRecords⟩

end Example
end ContentSchema
