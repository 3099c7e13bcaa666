import ContentSchema.Proofs.KeyEquality
import ContentSchema.Proofs.NormalExamples

/-! Nulls inside records. Taking all of them out, at every depth, changes nothing in the example but
the order of the keys in its mappings. -/
namespace ContentSchema

/-- Where no key stands twice, entries are found again among those that are kept. -/
theorem Dictionary.get?_filter {α κ : Type} [DecidableEq κ] {d : Dictionary α κ}
    (distinct : (keys d).Nodup) (p : α → Bool) (key : κ) :
    get? (d.filter fun (_, v) => p v) key = (get? d key).filter p := by
  induction d with
  | nil => rfl
  | cons entry rest ih =>
    obtain ⟨k, v⟩ := entry
    obtain ⟨new, others⟩ := List.nodup_cons.mp distinct
    have ih := ih others
    by_cases same : k = key
    · subst same
      have absent : get? rest k = none := get?_eq_none_iff.mpr new
      rw [absent, Option.filter_none] at ih
      cases kept : p v <;> simp [get?, kept, ih, Option.filter]
    · cases kept : p v <;> simp [get?, kept, ih, same]

namespace Value

namespace KeysDistinct

theorem mapping {fields : Record} (distinct : (Dictionary.keys fields).Nodup)
    (each : ∀ field ∈ fields, field.2.KeysDistinct) : (Value.mapping fields).KeysDistinct := by
  intro path inner holds
  cases holds with
  | here => exact distinct
  | key found deeper => exact each _ (Dictionary.mem_of_get? found) _ _ deeper
  | element sequence _ _ => cases sequence

theorem sequence {v : Value} {items : List Value} (known : v.items? = some items)
    (each : ∀ w ∈ items, w.KeysDistinct) : v.KeysDistinct := by
  intro path inner holds
  cases holds with
  | here => cases known
  | key _ _ => cases known
  | element same found deeper =>
    rw [known] at same
    cases same
    exact each _ found _ _ deeper

theorem single {v : Value} (noMapping : v.fields? = none) (noSequence : v.items? = none) :
    v.KeysDistinct := by
  intro path inner holds
  cases holds with
  | here => cases noMapping
  | key _ _ => cases noMapping
  | element same _ _ =>
    rw [noSequence] at same
    cases same

end KeysDistinct

mutual
/-- A value without the nulls inside it: the null entries of its mappings and the null members of its
sequences, at every depth. -/
def withoutNulls : Value → Value
  | .list items => .list (itemsWithoutNulls items)
  | .tuple items => .tuple (itemsWithoutNulls items)
  | .mapping fields => .mapping (fieldsWithoutNulls fields)
  | v => v
def itemsWithoutNulls : List Value → List Value
  | [] => []
  | v :: rest =>
    if v.isNull then itemsWithoutNulls rest else withoutNulls v :: itemsWithoutNulls rest
def fieldsWithoutNulls : List (String × Value) → List (String × Value)
  | [] => []
  | (key, v) :: rest =>
    if v.isNull then fieldsWithoutNulls rest else (key, withoutNulls v) :: fieldsWithoutNulls rest
end

theorem itemsWithoutNulls_eq (items : List Value) :
    itemsWithoutNulls items = (items.filter fun v => !v.isNull).map withoutNulls := by
  induction items with
  | nil => rfl
  | cons v rest ih =>
    rw [itemsWithoutNulls, ih]
    cases hv : v.isNull <;> simp [hv]

theorem fieldsWithoutNulls_eq (fields : List (String × Value)) :
    fieldsWithoutNulls fields =
      (fields.filter fun (_, v) => !v.isNull).map fun (key, v) => (key, v.withoutNulls) := by
  induction fields with
  | nil => rfl
  | cons field rest ih =>
    obtain ⟨key, v⟩ := field
    rw [fieldsWithoutNulls, ih]
    cases hv : v.isNull <;> simp [hv]

@[simp] theorem isNull_withoutNulls (v : Value) : v.withoutNulls.isNull = v.isNull := by
  cases v <;> rfl

theorem withoutNulls_leaf {v : Value} (leaf : v.isLeaf = true) : v.withoutNulls = v := by
  cases v with
  | list _ => cases leaf
  | tuple _ => cases leaf
  | mapping _ => cases leaf
  | _ => rfl

theorem items?_withoutNulls (v : Value) :
    v.withoutNulls.items? = v.items?.map itemsWithoutNulls := by
  cases v <;> rfl

theorem fields?_withoutNulls (v : Value) :
    v.withoutNulls.fields? = v.fields?.map fieldsWithoutNulls := by
  cases v <;> rfl

/-- Two examples with the same leaves at the same places. Only the order of the keys in their mappings
may differ. -/
inductive Rearranged : Value → Value → Prop where
  | leaf {v : Value} (leaf : v.isLeaf = true) : Rearranged v v
  | list {u v : Value} (member : Rearranged u v) : Rearranged (.list [u]) (.list [v])
  | mapping {a b : Record} (distinct : (Dictionary.keys a).Nodup)
      (keys : (Dictionary.keys a).Perm (Dictionary.keys b))
      (each : ∀ key u v, Dictionary.get? a key = some u → Dictionary.get? b key = some v →
        Rearranged u v) :
      Rearranged (.mapping a) (.mapping b)

theorem Rearranged.isEmpty_eq {a b : Record} (h : Rearranged (.mapping a) (.mapping b)) :
    a.isEmpty = b.isEmpty := by
  cases h with
  | leaf leaf => cases leaf
  | mapping _ keys _ =>
    have same := keys.isEmpty_eq
    rwa [Dictionary.keys, Dictionary.keys, List.isEmpty_map, List.isEmpty_map] at same

theorem sameFields_of_forall {fields others : Record}
    (each : ∀ field ∈ fields, ∃ v, Dictionary.get? others field.1 = some v ∧
      field.2.alike v = true) : sameFields fields others = true := by
  induction fields with
  | nil => rfl
  | cons field rest ih =>
    obtain ⟨key, u⟩ := field
    obtain ⟨v, found, like⟩ := each _ List.mem_cons_self
    rw [sameFields, found]
    exact Bool.and_eq_true_iff.mpr ⟨like, ih fun other mem => each other (List.mem_cons_of_mem _ mem)⟩

theorem isHashable_of_isLeaf {v : Value} (leaf : v.isLeaf = true) : v.isHashable = true := by
  cases v with
  | list _ => cases leaf
  | tuple _ => cases leaf
  | mapping _ => cases leaf
  | _ => rfl

/-- Rearranged examples are equal. -/
theorem Rearranged.alike {u v : Value} (h : Rearranged u v) : u.alike v = true := by
  induction h with
  | leaf leaf => exact alike_refl (isHashable_of_isLeaf leaf)
  | list member ih =>
    rw [alike_eq_same rfl, same, sameItems, sameItems, Bool.and_true]
    exact ih
  | @mapping a b distinct keys each ih =>
    have lengths : a.length = b.length := by simpa [Dictionary.keys] using keys.length_eq
    rw [alike_eq_same rfl, same, Bool.and_eq_true_iff, beq_iff_eq]
    refine ⟨lengths, sameFields_of_forall fun field mem => ?_⟩
    obtain ⟨key, u⟩ := field
    have known : key ∈ Dictionary.keys b := keys.subset (List.mem_map_of_mem mem)
    obtain ⟨v, found⟩ := Option.isSome_iff_exists.mp (Dictionary.has_iff.mpr known)
    exact ⟨v, found, ih key u v (Dictionary.get?_eq_of_mem distinct mem) found⟩

end Value

namespace Example
open Value

theorem mappings_map_withoutNulls (values : List Value) :
    mappings (values.map withoutNulls) = (mappings values).map fieldsWithoutNulls := by
  unfold mappings
  rw [List.filterMap_map, List.map_filterMap]
  exact List.filterMap_congr fun v _ => fields?_withoutNulls v

theorem elements_map_withoutNulls (values : List Value) :
    elements (values.map withoutNulls) = (elements values).map withoutNulls := by
  have member (v : Value) : PathStep.below .element v.withoutNulls =
      (PathStep.below .element v).map withoutNulls := by
    cases v with
    | list items | tuple items =>
      rw [withoutNulls, itemsWithoutNulls_eq, PathStep.below, PathStep.below, List.filter_map,
        List.filter_filter]
      simp
    | _ => rfl
  rw [← below_element, ← below_element, List.flatMap_map, List.map_flatMap]
  exact List.flatMap_congr fun v _ => member v

theorem observed?_fieldsWithoutNulls {r : Record} (distinct : (Dictionary.keys r).Nodup)
    (key : String) : observed? key (fieldsWithoutNulls r) = (observed? key r).map withoutNulls := by
  have found := Dictionary.get?_filter distinct (fun v => !v.isNull) key
  rw [observed?, observed?, fieldsWithoutNulls_eq, Dictionary.get?_map, found]
  cases Dictionary.get? r key with
  | none => rfl
  | some v => cases hv : v.isNull <;> simp [hv, Option.filter]

theorem column_map_withoutNulls {records : List Record}
    (distinct : ∀ r ∈ records, (Dictionary.keys r).Nodup) (key : String) :
    column key (records.map fieldsWithoutNulls) = (column key records).map withoutNulls := by
  unfold column
  rw [List.filterMap_map, List.map_filterMap]
  exact List.filterMap_congr fun r mem => observed?_fieldsWithoutNulls (distinct r mem) key

/-- An example is rearranged when what is merged from every column is. -/
theorem rearranged_of_columns {records others : List Record}
    (columns : ∀ key,
      Option.Rel Rearranged (merge (column key records)) (merge (column key others))) :
    Rearranged (.mapping (ofRecords records)) (.mapping (ofRecords others)) := by
  simp only [← get?_ofRecords] at columns
  have same (key : String) : key ∈ Dictionary.keys (ofRecords records) ↔
      key ∈ Dictionary.keys (ofRecords others) := by
    have related := columns key
    rw [← not_iff_not, ← Dictionary.get?_eq_none_iff, ← Dictionary.get?_eq_none_iff]
    generalize Dictionary.get? (ofRecords records) key = u,
      Dictionary.get? (ofRecords others) key = v at related
    cases related <;> simp
  refine .mapping (nodup_keys_ofRecords records) ?keys fun key u v hu hv => ?each
  case keys =>
    exact (List.perm_ext_iff_of_nodup (nodup_keys_ofRecords _) (nodup_keys_ofRecords _)).mpr same
  case each =>
    have related := columns key
    rw [hu, hv] at related
    exact Option.rel_some_some.mp related

theorem keysDistinct_of_mem_column {key : String} {records : List Record}
    (distinct : ∀ r ∈ records, (Value.mapping r).KeysDistinct) {v : Value}
    (mem : v ∈ column key records) : v.KeysDistinct := by
  obtain ⟨r, inRecords, seen⟩ := List.mem_filterMap.mp mem
  rw [observed?] at seen
  split at seen
  · rename_i w found
    split at seen
    · cases seen
    · cases seen
      exact (distinct r inRecords).field (Dictionary.mem_of_get? found)
  · cases seen

theorem keysDistinct_of_mem_mappings {values : List Value}
    (distinct : ∀ v ∈ values, v.KeysDistinct) {r : Record} (mem : r ∈ mappings values) :
    (Value.mapping r).KeysDistinct := by
  obtain ⟨v, inValues, mapping⟩ := List.mem_filterMap.mp mem
  cases v with
  | mapping fields =>
    cases mapping
    exact distinct _ inValues
  | _ => cases mapping

theorem keysDistinct_of_mem_elements {values : List Value}
    (distinct : ∀ v ∈ values, v.KeysDistinct) {v : Value} (mem : v ∈ elements values) :
    v.KeysDistinct := by
  obtain ⟨inSequence, -⟩ := List.mem_filter.mp mem
  obtain ⟨items, known, inItems⟩ := List.mem_flatten.mp inSequence
  obtain ⟨w, inValues, sequence⟩ := List.mem_filterMap.mp known
  exact (distinct w inValues).member sequence inItems

/-- Mappings that merge to rearranged examples are rearranged, or nothing is left of either. -/
theorem rel_merge_mapping {fields others : Record} {rest more : List Value}
    (rearranged : Rearranged (.mapping (ofRecords (mappings (.mapping fields :: rest))))
      (.mapping (ofRecords (mappings (.mapping others :: more))))) :
    Option.Rel Rearranged (merge (.mapping fields :: rest)) (merge (.mapping others :: more)) := by
  rw [merge_mapping, merge_mapping, rearranged.isEmpty_eq]
  split
  · exact .none
  · exact .some rearranged

/-- What is merged from values without their nulls is what is merged from the values, rearranged. -/
theorem merge_map_withoutNulls {values : List Value} (distinct : ∀ v ∈ values, v.KeysDistinct) :
    Option.Rel Rearranged (merge (values.map withoutNulls)) (merge values) := by
  induction values using merge_induction with
  | nil =>
    rw [List.map_nil, merge]
    exact .none
  | null rest =>
    have nothing (rest : List Value) : merge (.null :: rest) = none := by simp [merge]
    rw [List.map_cons, withoutNulls, nothing, nothing]
    · exact .none
    all_goals intro _ h; cases h
  | mapping fields rest ih =>
    have below : ∀ r ∈ mappings (.mapping fields :: rest), (Value.mapping r).KeysDistinct :=
      fun r => keysDistinct_of_mem_mappings distinct
    refine rel_merge_mapping (rearranged_of_columns fun key => ?_)
    rw [← withoutNulls, ← List.map_cons, mappings_map_withoutNulls,
      column_map_withoutNulls fun r mem => (below r mem).own]
    exact ih key fun v => keysDistinct_of_mem_column below
  | sequence w rest sequence ih =>
    have sequenceToo : w.withoutNulls.items?.isSome = true := by
      rw [items?_withoutNulls, Option.isSome_map, sequence]
    have members := ih fun v => keysDistinct_of_mem_elements distinct
    rw [List.map_cons, merge_sequence sequenceToo, merge_sequence sequence, ← List.map_cons,
      elements_map_withoutNulls]
    generalize merge (elements (w :: rest)) = v, merge _ = u at members
    cases members with
    | none => exact .none
    | some member => exact .some (.list member)
  | leaf v rest leaf =>
    rw [List.map_cons, withoutNulls_leaf leaf, merge_leaf leaf, merge_leaf leaf]
    exact .some (.leaf leaf)

/-- Records without their nulls have the same example, but for the order of the keys. -/
theorem ofRecords_withoutNulls {records : List Record}
    (distinct : ∀ r ∈ records, (Value.mapping r).KeysDistinct) :
    Rearranged (.mapping (ofRecords (records.map fieldsWithoutNulls)))
        (.mapping (ofRecords records)) ∧
      (Value.mapping (ofRecords (records.map fieldsWithoutNulls))).alike
        (.mapping (ofRecords records)) = true := by
  have rearranged : Rearranged (.mapping (ofRecords (records.map fieldsWithoutNulls)))
      (.mapping (ofRecords records)) := rearranged_of_columns fun key => by
    rw [column_map_withoutNulls fun r mem => (distinct r mem).own]
    exact merge_map_withoutNulls fun v => keysDistinct_of_mem_column distinct
  exact ⟨rearranged, rearranged.alike⟩

private def sparse : Record :=
  [("a", .null), ("b", .list [.null, .tuple [.mapping [("c", .null), ("d", .int 1)]]])]

private def filled : Record := [("a", .int 2), ("b", .list [.list [.mapping [("c", .int 3)]]])]

/-- The first keys of both mappings are null, so that without the nulls they come second. -/
theorem ofRecords_withoutNulls_sparse :
    (∀ r ∈ [sparse, filled], (Value.mapping r).KeysDistinct) ∧
      ofRecords [sparse, filled] =
        [("a", .int 2), ("b", .list [.list [.mapping [("c", .int 3), ("d", .int 1)]]])] ∧
      ofRecords ([sparse, filled].map fieldsWithoutNulls) =
        [("b", .list [.list [.mapping [("d", .int 1), ("c", .int 3)]]]), ("a", .int 2)] ∧
      Rearranged (.mapping (ofRecords ([sparse, filled].map fieldsWithoutNulls)))
        (.mapping (ofRecords [sparse, filled])) := by
  have distinct : ∀ r ∈ [sparse, filled], (Value.mapping r).KeysDistinct := by
    have number (n : Int) : (Value.int n).KeysDistinct := .single rfl rfl
    have null : Value.null.KeysDistinct := .single rfl rfl
    simp only [List.forall_mem_cons]
    refine ⟨?sparse, ?filled, nofun⟩
    case sparse =>
      refine .mapping (by decide) ?_
      simp only [sparse, List.forall_mem_cons]
      refine ⟨null, .sequence rfl ?_, nofun⟩
      simp only [List.forall_mem_cons]
      refine ⟨null, .sequence rfl ?_, nofun⟩
      simp only [List.forall_mem_cons]
      refine ⟨.mapping (by decide) ?_, nofun⟩
      simp only [List.forall_mem_cons]
      exact ⟨null, number 1, nofun⟩
    case filled =>
      refine .mapping (by decide) ?_
      simp only [filled, List.forall_mem_cons]
      refine ⟨number 2, .sequence rfl ?_, nofun⟩
      simp only [List.forall_mem_cons]
      refine ⟨.sequence rfl ?_, nofun⟩
      simp only [List.forall_mem_cons]
      refine ⟨.mapping (by decide) ?_, nofun⟩
      simp only [List.forall_mem_cons]
      exact ⟨number 3, nofun⟩
  exact ⟨distinct, by cbv, by cbv, (ofRecords_withoutNulls distinct).1⟩

end Example
end ContentSchema
