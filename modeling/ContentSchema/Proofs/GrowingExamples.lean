import ContentSchema.Proofs.LeafObservations

/-! Examples of more and more records. Further records add to an example and change nothing in
it. -/
namespace ContentSchema

theorem Dictionary.keys_tabulate {α κ : Type} [DecidableEq κ] (table : List κ) (f : κ → Option α) :
    keys (table.filterMap fun k => (f k).map fun v => (k, v)) =
      table.filter fun k => (f k).isSome := by
  unfold keys
  induction table with
  | nil => rfl
  | cons key rest ih => cases hf : f key <;> simp [hf, ih]

namespace Example

/-- An example and one that extends it. Keys keep their order, and others may stand between them. A
scalar stays as it is; a mapping, and the one member of a list, may be extended. -/
inductive ExtendedBy : Value → Value → Prop where
  | scalar {v : Value} (leaf : v.isLeaf = true) : ExtendedBy v v
  | list {u v : Value} (member : ExtendedBy u v) : ExtendedBy (.list [u]) (.list [v])
  | mapping {a b : Record} (distinct : (Dictionary.keys b).Nodup)
      (order : (Dictionary.keys a).Sublist (Dictionary.keys b))
      (each : ∀ key u v, Dictionary.get? a key = some u → Dictionary.get? b key = some v →
        ExtendedBy u v) :
      ExtendedBy (.mapping a) (.mapping b)

/-- A mapping that extends another one has its keys, in their order. -/
theorem ExtendedBy.keys_sublist {a b : Record} (h : ExtendedBy (.mapping a) (.mapping b)) :
    (Dictionary.keys a).Sublist (Dictionary.keys b) := by
  cases h with
  | scalar leaf => cases leaf
  | mapping _ order _ => exact order

theorem keys_append (a b : List Record) : ∃ new, keys (a ++ b) = keys a ++ new := by
  unfold keys
  rw [List.flatMap_append, List.eraseDups_append]
  exact ⟨_, rfl⟩

theorem column_append (key : String) (a b : List Record) :
    column key (a ++ b) = column key a ++ column key b := List.filterMap_append

theorem mappings_append (a b : List Value) : mappings (a ++ b) = mappings a ++ mappings b :=
  List.filterMap_append

theorem elements_append (a b : List Value) : elements (a ++ b) = elements a ++ elements b := by
  unfold elements
  rw [List.filterMap_append, List.flatten_append, List.filter_append]

private theorem nodup_eraseDups (table : List String) : table.eraseDups.Nodup := by
  induction h : table.length using Nat.strongRecOn generalizing table with
  | ind n ih =>
    cases table with
    | nil => exact List.nodup_nil
    | cons key rest =>
      subst h
      rw [List.eraseDups_cons]
      have shorter := List.length_filter_le (fun k => !k == key) rest
      refine List.nodup_cons.mpr ⟨?_, ih _ (Nat.lt_succ_of_le shorter) _ rfl⟩
      simp [List.mem_eraseDups]

theorem keys_ofRecords (records : List Record) :
    Dictionary.keys (ofRecords records) =
      (keys records).filter fun key => (merge (column key records)).isSome :=
  Dictionary.keys_tabulate _ _

theorem nodup_keys_ofRecords (records : List Record) :
    (Dictionary.keys (ofRecords records)).Nodup := by
  rw [keys_ofRecords]
  exact (nodup_eraseDups _).filter _

/-- What is merged from some values extends with any values that are added to them. -/
def Keeps (values : List Value) : Prop :=
  ∀ more u, merge values = some u → ∃ v, merge (values ++ more) = some v ∧ ExtendedBy u v

/-- Records extend an example when each of its columns does. -/
private theorem extendedBy_of_columns {a b : List Record} (columns : ∀ key, Keeps (column key a)) :
    ExtendedBy (.mapping (ofRecords a)) (.mapping (ofRecords (a ++ b))) := by
  refine .mapping (nodup_keys_ofRecords _) ?order ?each
  case order =>
    obtain ⟨new, hkeys⟩ := keys_append a b
    rw [keys_ofRecords, keys_ofRecords, hkeys]
    have kept (key : String) (h : (merge (column key a)).isSome = true) :
        (merge (column key (a ++ b))).isSome = true := by
      obtain ⟨u, hu⟩ := Option.isSome_iff_exists.mp h
      obtain ⟨v, hv, _⟩ := columns key (column key b) u hu
      rw [column_append, hv]
      rfl
    exact (List.monotone_filter_right _ kept).trans ((List.sublist_append_left _ new).filter _)
  case each =>
    intro key u v hu hv
    rw [get?_ofRecords] at hu hv
    obtain ⟨w, hw, extended⟩ := columns key (column key b) u hu
    rw [column_append, hw] at hv
    cases hv
    exact extended

private theorem keeps_sequence {w : Value} {rest : List Value} (sequence : w.items?.isSome = true)
    (members : Keeps (elements (w :: rest))) : Keeps (w :: rest) := by
  intro more u hu
  rw [merge_sequence sequence, Option.map_eq_some_iff] at hu
  obtain ⟨member, hmember, rfl⟩ := hu
  obtain ⟨v, hv, extended⟩ := members (elements more) member hmember
  refine ⟨.list [v], ?_, .list extended⟩
  rw [List.cons_append, merge_sequence sequence, ← List.cons_append, elements_append, hv]
  rfl

private theorem keeps_mapping {fields : Record} {rest : List Value}
    (columns : ∀ key, Keeps (column key (mappings (.mapping fields :: rest)))) :
    Keeps (.mapping fields :: rest) := by
  intro more u hu
  have extended := extendedBy_of_columns (b := mappings more) columns
  rw [merge_mapping] at hu
  split at hu
  · cases hu
  · rename_i some
    cases hu
    refine ⟨_, ?_, extended⟩
    rw [List.cons_append, merge_mapping, ← List.cons_append, mappings_append, if_neg]
    -- Keys do not go away, so that the mapping does not become empty.
    intro empty
    have order := extended.keys_sublist
    rw [List.isEmpty_iff.mp empty] at order
    exact some (List.isEmpty_iff.mpr (List.map_eq_nil_iff.mp (List.sublist_nil.mp order)))

theorem keeps (values : List Value) : Keeps values := by
  induction values using merge.induct with
  | case1 => exact fun more u hu => by simp [merge] at hu
  | case2 rest => exact fun more u hu => by simp [merge] at hu
  | case3 fields rest _ _ _ ih | case4 fields rest _ _ _ ih => exact keeps_mapping ih
  | case5 items rest ih | case6 items rest ih => exact keeps_sequence rfl ih
  | case7 v rest noNull noMapping noList noTuple =>
    have leaf : v.isLeaf = true := by
      cases v with
      | null => exact absurd rfl noNull
      | mapping fields => exact absurd rfl (noMapping fields)
      | list items => exact absurd rfl (noList items)
      | tuple items => exact absurd rfl (noTuple items)
      | _ => rfl
    intro more u hu
    rw [merge_leaf leaf] at hu
    cases hu
    exact ⟨v, merge_leaf leaf _, .scalar leaf⟩

/-- The example of more records extends the example of the first ones. -/
theorem ofRecords_extendedBy_append (a b : List Record) :
    ExtendedBy (.mapping (ofRecords a)) (.mapping (ofRecords (a ++ b))) :=
  extendedBy_of_columns fun key => keeps (column key a)

end Example
end ContentSchema
