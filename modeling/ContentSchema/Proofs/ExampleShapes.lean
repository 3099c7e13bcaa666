import ContentSchema.Proofs.GrowingExamples

/-! The shape of a merged example. No mapping in it has a key twice, and it has a sequence at a path
exactly when the first thing that the records show there is one. -/
namespace ContentSchema

namespace Value.KeysDistinct
variable {v w : Value}

theorem own {fields : Record} (h : (Value.mapping fields).KeysDistinct) :
    (Dictionary.keys fields).Nodup := h [] fields (.here _)

theorem field {fields : Record} {key : String} (h : (Value.mapping fields).KeysDistinct)
    (hmem : (key, v) ∈ fields) : v.KeysDistinct := by
  intro path inner holds
  exact h (.key key :: path) inner (.key (Dictionary.get?_eq_of_mem h.own hmem) holds)

theorem member {items : List Value} (h : w.KeysDistinct) (sequence : w.items? = some items)
    (hmem : v ∈ items) : v.KeysDistinct := by
  intro path inner holds
  exact h (.element :: path) inner (.element sequence hmem holds)

end Value.KeysDistinct

namespace Example
open Value (Holds)

theorem keysDistinct_of_merge {values : List Value} {u : Value} (merged : merge values = some u) :
    u.KeysDistinct := by
  intro path fields holds
  induction path generalizing values u with
  | nil =>
    cases holds
    obtain ⟨w, _, ⟨_, heq⟩ | ⟨_, _, _, heq⟩ | ⟨leaf, heq⟩⟩ := merge_cases merged
    · cases heq
      exact nodup_keys_ofRecords _
    · cases heq
    · rw [← heq] at leaf
      cases leaf
  | cons step path ih =>
    cases step with
    | key name =>
      obtain ⟨_, child, below, deeper⟩ := (holds_key_iff values name path _).mp ⟨u, merged, holds⟩
      exact ih below deeper
    | element =>
      obtain ⟨_, child, below, deeper⟩ := (holds_element_iff values path _).mp ⟨u, merged, holds⟩
      exact ih below deeper

theorem keysDistinct_ofRecords (records : List Record) :
    (Value.mapping (ofRecords records)).KeysDistinct := by
  intro path fields holds
  cases holds with
  | here => exact nodup_keys_ofRecords records
  | key found deeper =>
    rw [get?_ofRecords] at found
    exact keysDistinct_of_merge found _ _ deeper
  | element sequence _ _ => cases sequence

/-- The first of some values decides whether a sequence is merged from them, at any depth. -/
theorem head_observationsFrom {values : List Value} {u v : Value} {path : List PathStep}
    (merged : merge values = some u) (holds : Holds u path v) :
    ∃ w, (observationsFrom values path).head? = some w ∧ w.items?.isSome = v.items?.isSome := by
  induction path generalizing values u with
  | nil =>
    cases holds
    obtain ⟨w, hw, ⟨mapping, heq⟩ | ⟨sequence, _, _, heq⟩ | ⟨_, heq⟩⟩ := merge_cases merged
    · refine ⟨w, hw, ?_⟩
      cases w with
      | mapping fields => rw [heq]; rfl
      | _ => cases mapping
    · exact ⟨w, hw, by rw [sequence, heq]; rfl⟩
    · exact ⟨w, hw, by rw [heq]⟩
  | cons step path ih =>
    cases step with
    | key name =>
      obtain ⟨_, child, below, deeper⟩ := (holds_key_iff values name path _).mp ⟨u, merged, holds⟩
      rw [← below_key] at below
      exact ih below deeper
    | element =>
      obtain ⟨_, child, below, deeper⟩ := (holds_element_iff values path _).mp ⟨u, merged, holds⟩
      rw [← below_element] at below
      exact ih below deeper

/-- The first record that shows something at a path decides whether the example has a sequence
there. -/
theorem head_observations {records : List Record} {path : List PathStep} {v : Value}
    (holds : Holds (.mapping (ofRecords records)) path v) (below : path ≠ []) :
    ∃ w, (observations records path).head? = some w ∧ w.items?.isSome = v.items?.isSome := by
  cases holds with
  | here => exact absurd rfl below
  | element sequence _ _ => cases sequence
  | @key _ key _ _ path found deeper =>
    have all : mappings (records.map Value.mapping) = records := by
      rw [mappings, List.filterMap_map]
      exact List.filterMap_some
    have below : observations records (.key key :: path) =
        observationsFrom (column key records) path := by
      change observationsFrom ((records.map Value.mapping).flatMap _) path = _
      rw [below_key, all]
    rw [below]
    rw [get?_ofRecords] at found
    exact head_observationsFrom found deeper

private theorem eraseDups_eq_self {table : List String} (distinct : table.Nodup) :
    table.eraseDups = table := by
  induction table with
  | nil => rfl
  | cons key rest ih =>
    obtain ⟨new, others⟩ := List.nodup_cons.mp distinct
    have kept : rest.filter (fun k => !k == key) = rest := by
      refine List.filter_eq_self.mpr fun k hk => ?_
      have other : k ≠ key := fun same => new (same ▸ hk)
      simp [other]
    rw [List.eraseDups_cons, kept, ih others]

/-- The example, told field by field in the order in which the keys are seen. -/
theorem ofRecords_eq_of_merged {records : List Record} {fields : Record}
    (seen : keys records = Dictionary.keys fields)
    (each : ∀ field ∈ fields, merge (column field.1 records) = some field.2) :
    ofRecords records = fields := by
  rw [ofRecords, seen, Dictionary.keys, List.filterMap_map]
  refine (List.filterMap_congr fun field hmem => ?_).trans List.filterMap_some
  simp only [Function.comp_apply, each field hmem, Option.map_some]

/-- A record is its own example when each of its values is. -/
theorem ofRecords_singleton {r : Record} (distinct : (Dictionary.keys r).Nodup)
    (each : ∀ field ∈ r, merge [field.2] = some field.2) : ofRecords [r] = r := by
  refine ofRecords_eq_of_merged ?seen fun field hmem => ?_
  case seen => rw [keys, List.flatMap_singleton, eraseDups_eq_self distinct]
  obtain ⟨key, v⟩ := field
  have merged : merge [v] = some v := each (key, v) hmem
  have present : v.isNull = false := by
    cases v with
    | null =>
      rw [merge] at merged
      cases merged
    | _ => rfl
  have seen : observed? key r = some v := by
    rw [observed?, Dictionary.get?_eq_of_mem distinct hmem]
    simp only [present]
    rfl
  rw [column, List.filterMap_cons_some seen, List.filterMap_nil]
  exact merged

theorem merge_singleton_mapping {r : Record} (some : r ≠ []) (same : ofRecords [r] = r) :
    merge [.mapping r] = .some (.mapping r) := by
  have own : mappings [.mapping r] = [r] := rfl
  rw [merge_mapping, own, same, if_neg]
  simpa using some

end Example
end ContentSchema
