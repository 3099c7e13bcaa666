import ContentSchema.Record

/-! One example value per field, merged from the records of a type. -/
namespace ContentSchema.Example

/-- The keys of some records in the order in which they are first seen. -/
def keys (records : List Record) : List String := (records.flatMap Dictionary.keys).eraseDups

/-- The value that a record holds under a key, unless it is null. -/
def observed? (key : String) (r : Record) : Option Value :=
  match Dictionary.get? r key with
  | some v => if v.isNull then none else some v
  | none => none

/-- The values other than null that some records hold under a key, in order. -/
def column (key : String) (records : List Record) : List Value := records.filterMap (observed? key)

/-- The mappings among some values. -/
def mappings (values : List Value) : List Record := values.filterMap Value.fields?

/-- The members other than null of the sequences among some values, in order. -/
def elements (values : List Value) : List Value :=
  (values.filterMap Value.items?).flatten.filter fun v => !v.isNull

mutual
/-- The number of nodes of a value. -/
def size : Value → Nat
  | .list items => 1 + sizeItems items
  | .tuple items => 1 + sizeItems items
  | .mapping fields => 1 + sizeFields fields
  | _ => 1
def sizeItems : List Value → Nat
  | [] => 0
  | v :: rest => size v + sizeItems rest
def sizeFields : List (String × Value) → Nat
  | [] => 0
  | (_, v) :: rest => size v + sizeFields rest
end

theorem sizeItems_append (a b : List Value) : sizeItems (a ++ b) = sizeItems a + sizeItems b := by
  induction a with
  | nil => simp [sizeItems]
  | cons v a ih => simp only [List.cons_append, sizeItems, ih]; omega

theorem sizeItems_filter_le (p : Value → Bool) (vs : List Value) :
    sizeItems (vs.filter p) ≤ sizeItems vs := by
  induction vs with
  | nil => simp
  | cons v vs ih =>
    by_cases h : p v
    · simp only [List.filter_cons, h, if_true, sizeItems]; omega
    · simp only [List.filter_cons, h, sizeItems]; exact Nat.le_trans ih (Nat.le_add_left _ _)

theorem size_get?_le {fields : Record} {key : String} {v : Value}
    (h : Dictionary.get? fields key = some v) : size v ≤ sizeFields fields := by
  induction fields with
  | nil => simp [Dictionary.get?] at h
  | cons field rest ih =>
    obtain ⟨k, w⟩ := field
    unfold Dictionary.get? at h
    split at h
    · cases h; simp [sizeFields]
    · have := ih h; simp only [sizeFields]; omega

theorem size_observed?_le {key : String} {r : Record} {v : Value} (h : observed? key r = some v) :
    size v ≤ sizeFields r := by
  unfold observed? at h
  split at h
  · rename_i w hw
    split at h
    · cases h
    · cases h; exact size_get?_le hw
  · cases h

/-- The number of nodes of some records. -/
def sizeRecords : List Record → Nat
  | [] => 0
  | r :: rest => sizeFields r + sizeRecords rest

private theorem sizeItems_column_le (key : String) (records : List Record) :
    sizeItems (column key records) ≤ sizeRecords records := by
  induction records with
  | nil => simp [column, sizeItems]
  | cons r records ih =>
    unfold column at ih ⊢
    rw [List.filterMap_cons]
    cases h : observed? key r with
    | none => simp only [sizeRecords]; omega
    | some v =>
      have := size_observed?_le h
      simp only [sizeItems, sizeRecords]; omega

private theorem sizeRecords_mappings_le (values : List Value) :
    sizeRecords (mappings values) + (mappings values).length ≤ sizeItems values := by
  induction values with
  | nil => simp [mappings, sizeItems, sizeRecords]
  | cons v values ih =>
    unfold mappings at ih ⊢
    cases v <;> simp [List.filterMap_cons, Value.fields?, sizeItems, size, sizeRecords] <;> omega

private theorem sizeItems_elements_le (values : List Value) :
    sizeItems (elements values) + (values.filterMap Value.items?).length ≤ sizeItems values := by
  have h : sizeItems (values.filterMap Value.items?).flatten +
      (values.filterMap Value.items?).length ≤ sizeItems values := by
    induction values with
    | nil => simp [sizeItems]
    | cons v values ih =>
      cases v <;>
        simp [List.filterMap_cons, Value.items?, sizeItems, size, sizeItems_append] <;> omega
  have := sizeItems_filter_le (fun v => !v.isNull) (values.filterMap Value.items?).flatten
  unfold elements
  omega

/-- Merge the observations of one field. The first one decides the shape: mappings are merged key
by key, sequences become a list of one merged member, and any other value stays as it is. Nothing
is left of empty mappings and sequences. -/
def merge (values : List Value) : Option Value :=
  match values with
  | [] => none
  | .null :: _ => none
  | .mapping fields :: rest =>
    let records := mappings (.mapping fields :: rest)
    let merged := (keys records).filterMap fun key =>
      (merge (column key records)).map fun v => (key, v)
    if merged.isEmpty then none else some (.mapping merged)
  | .list items :: rest => (merge (elements (.list items :: rest))).map fun v => .list [v]
  | .tuple items :: rest => (merge (elements (.tuple items :: rest))).map fun v => .list [v]
  | v :: _ => some v
termination_by sizeItems values
decreasing_by
  · have h := sizeItems_column_le key (mappings (.mapping fields :: rest))
    have h' := sizeRecords_mappings_le (.mapping fields :: rest)
    have : 0 < (mappings (.mapping fields :: rest)).length := by simp [mappings, Value.fields?]
    omega
  · have h := sizeItems_elements_le (.list items :: rest)
    simp only [List.filterMap_cons, Value.items?, List.length_cons] at h
    omega
  · have h := sizeItems_elements_le (.tuple items :: rest)
    simp only [List.filterMap_cons, Value.items?, List.length_cons] at h
    omega

/-- One example per field, keys in the order in which they are first seen. Fields that are null or
empty on every record are left out. -/
def ofRecords (records : List Record) : Record :=
  (keys records).filterMap fun key => (merge (column key records)).map fun v => (key, v)

/-- The example of some entries: the one that is given, or else the one merged from the entries,
which then have to be records. -/
def ofEntries (entries : List Value) (given : Option Record) : Except NotRecord Record :=
  match given with
  | some fields => .ok fields
  | none => (Record.listOf entries).map ofRecords

theorem exists_ofEntries (records : List Record) (given : Option Record) :
    ∃ fields, ofEntries (records.map Value.mapping) given = .ok fields := by
  unfold ofEntries
  cases given with
  | some fields => exact ⟨fields, rfl⟩
  | none =>
    rw [Record.listOf_mapping]
    exact ⟨_, rfl⟩

end ContentSchema.Example
