import ContentSchema.Dictionary
import Mathlib.Data.List.Basic
import Mathlib.Data.List.Perm.Basic

/-! What a look-up in an ordered dictionary says about its entries. -/
namespace ContentSchema.Dictionary
variable {α κ : Type} [DecidableEq κ]

theorem mem_of_get? {d : Dictionary α κ} {key : κ} {value : α} (h : get? d key = some value) :
    (key, value) ∈ d := by
  induction d with
  | nil => cases h
  | cons entry rest ih =>
    obtain ⟨k, v⟩ := entry
    unfold get? at h
    split at h
    · rename_i hk
      cases h
      subst hk
      exact List.mem_cons_self
    · exact List.mem_cons_of_mem _ (ih h)

theorem get?_eq_none_iff {d : Dictionary α κ} {key : κ} : get? d key = none ↔ key ∉ keys d := by
  induction d with
  | nil => simp [get?, keys]
  | cons entry rest ih =>
    obtain ⟨k, v⟩ := entry
    unfold keys at ih ⊢
    by_cases hk : k = key
    · simp [get?, hk]
    · simp only [get?, hk, if_false, ih, List.map_cons, List.mem_cons, not_or]
      exact ⟨fun h => ⟨Ne.symm hk, h⟩, And.right⟩

theorem has_iff {d : Dictionary α κ} {key : κ} : has d key = true ↔ key ∈ keys d := by
  rw [← not_iff_not, ← get?_eq_none_iff, has]
  cases get? d key <;> simp

theorem get?_eq_of_mem {d : Dictionary α κ} {key : κ} {value : α} (distinct : (keys d).Nodup)
    (h : (key, value) ∈ d) : get? d key = some value := by
  induction d with
  | nil => cases h
  | cons entry rest ih =>
    obtain ⟨k, v⟩ := entry
    obtain ⟨new, others⟩ := List.nodup_cons.mp distinct
    rcases List.mem_cons.mp h with heq | hmem
    · cases heq
      simp [get?]
    · have hk : k ≠ key := by
        rintro rfl
        exact new (List.mem_map.mpr ⟨_, hmem, rfl⟩)
      simp only [get?, hk, if_false]
      exact ih others hmem

theorem get?_append (a b : Dictionary α κ) (key : κ) :
    get? (a ++ b) key = (get? a key).or (get? b key) := by
  induction a with
  | nil => simp [get?]
  | cons entry rest ih =>
    obtain ⟨k, v⟩ := entry
    rw [List.cons_append]
    by_cases hk : k = key <;> simp [get?, hk, ih]

/-- An entry that is present stays as it is. -/
theorem get?_putNew (d : Dictionary α κ) (key k : κ) (value : α) :
    get? (putNew d key value) k = (get? d k).or (if key = k then some value else none) := by
  unfold putNew
  split
  · rename_i present
    by_cases hk : key = k
    · subst hk
      rw [has, Option.isSome_iff_exists] at present
      obtain ⟨old, hold⟩ := present
      rw [hold]
      rfl
    · simp [hk]
  · rw [get?_append]
    rfl

theorem keys_putNew (d : Dictionary α κ) (key : κ) (value : α) :
    keys (putNew d key value) = if has d key then keys d else keys d ++ [key] := by
  unfold putNew
  split
  · rfl
  · simp [keys]

private theorem nodup_keys_append {d : Dictionary α κ} (distinct : (keys d).Nodup) (key : κ) :
    (if has d key then keys d else keys d ++ [key]).Nodup := by
  split
  · exact distinct
  · rename_i new
    rw [has_iff] at new
    exact List.nodup_append.mpr ⟨distinct, List.pairwise_singleton _ _, fun k hk k' hk' same =>
      new (List.mem_singleton.mp hk' ▸ same ▸ hk)⟩

theorem nodup_keys_putNew {d : Dictionary α κ} (distinct : (keys d).Nodup) (key : κ) (value : α) :
    (keys (putNew d key value)).Nodup := by
  rw [keys_putNew]
  exact nodup_keys_append distinct key

/-- Of several new entries for one key the first one stays. -/
theorem get?_foldl_putNew {β : Type} (items : List β) (key : β → κ) (value : β → α)
    (d : Dictionary α κ) (k : κ) :
    get? (items.foldl (fun d item => putNew d (key item) (value item)) d) k =
      (get? d k).or ((items.find? fun item => key item = k).map value) := by
  induction items generalizing d with
  | nil => simp
  | cons item items ih =>
    rw [List.foldl_cons, ih, get?_putNew, Option.or_assoc, List.find?_cons]
    by_cases hk : key item = k <;> simp [hk]

theorem nodup_keys_foldl_putNew {β : Type} (items : List β) (key : β → κ) (value : β → α)
    {d : Dictionary α κ} (distinct : (keys d).Nodup) :
    (keys (items.foldl (fun d item => putNew d (key item) (value item)) d)).Nodup := by
  induction items generalizing d with
  | nil => exact distinct
  | cons item items ih => exact ih (nodup_keys_putNew distinct _ _)

theorem mem_of_mem_put {d : Dictionary α κ} {key : κ} {value : α} {entry : κ × α}
    (h : entry ∈ put d key value) : entry = (key, value) ∨ entry ∈ d := by
  induction d with
  | nil => exact Or.inl (List.mem_singleton.mp h)
  | cons first rest ih =>
    obtain ⟨k, v⟩ := first
    unfold put at h
    split at h
    · rename_i hk
      subst hk
      rcases List.mem_cons.mp h with heq | hmem
      · exact Or.inl heq
      · exact Or.inr (List.mem_cons_of_mem _ hmem)
    · rcases List.mem_cons.mp h with heq | hmem
      · exact Or.inr (heq ▸ List.mem_cons_self)
      · exact (ih hmem).imp id (List.mem_cons_of_mem _)

private theorem mem_of_mem_assigned {entries : List (κ × α)} {d : Dictionary α κ} {entry : κ × α}
    (h : entry ∈ entries.foldl (fun d (key, value) => put d key value) d) :
    entry ∈ d ∨ entry ∈ entries := by
  induction entries generalizing d with
  | nil => exact Or.inl h
  | cons first rest ih =>
    rcases ih h with hd | hrest
    · exact (mem_of_mem_put hd).elim (fun heq => Or.inr (heq ▸ List.mem_cons_self)) Or.inl
    · exact Or.inr (List.mem_cons_of_mem _ hrest)

/-- Assignments leave only entries that were assigned. -/
theorem mem_of_mem_ofList {entries : List (κ × α)} {entry : κ × α} (h : entry ∈ ofList entries) :
    entry ∈ entries :=
  (mem_of_mem_assigned h).elim (fun hnil => absurd hnil List.not_mem_nil) id

theorem put_eq_append {d : Dictionary α κ} {key : κ} (value : α) (new : key ∉ keys d) :
    put d key value = d ++ [(key, value)] := by
  induction d with
  | nil => rfl
  | cons entry rest ih =>
    obtain ⟨k, v⟩ := entry
    unfold keys at ih new
    rw [List.map_cons, List.mem_cons, not_or] at new
    rw [put, if_neg (Ne.symm new.1), ih new.2]
    rfl

private theorem assigned_eq_append (entries : List (κ × α)) (d : Dictionary α κ)
    (distinct : (keys (d ++ entries)).Nodup) :
    entries.foldl (fun d (key, value) => put d key value) d = d ++ entries := by
  induction entries generalizing d with
  | nil => simp
  | cons entry rest ih =>
    obtain ⟨k, v⟩ := entry
    have new : k ∉ keys d := by
      unfold keys at distinct ⊢
      rw [List.map_append, List.map_cons] at distinct
      exact fun hk => (List.nodup_append.mp distinct).2.2 k hk k List.mem_cons_self rfl
    have step : put d k v = d ++ [(k, v)] := put_eq_append v new
    rw [List.foldl_cons]
    change rest.foldl _ (put d k v) = _
    rw [step, ih _ (by simpa using distinct), List.append_assoc]
    rfl

/-- Assignments to distinct keys are kept as they are. -/
theorem ofList_eq_self {entries : List (κ × α)} (distinct : (keys entries).Nodup) :
    ofList entries = entries :=
  assigned_eq_append entries [] distinct

theorem nodup_keys_put {d : Dictionary α κ} (distinct : (keys d).Nodup) (key : κ) (value : α) :
    (keys (put d key value)).Nodup := by
  rw [keys_put]
  exact nodup_keys_append distinct key

theorem nodup_keys_ofList (entries : List (κ × α)) : (keys (ofList entries)).Nodup := by
  have assigned (d : Dictionary α κ) (distinct : (keys d).Nodup) :
      (keys (entries.foldl (fun d (key, value) => put d key value) d)).Nodup := by
    induction entries generalizing d with
    | nil => exact distinct
    | cons entry rest ih => exact ih _ (nodup_keys_put distinct entry.1 entry.2)
  exact assigned [] List.nodup_nil

/-- No assignment is lost exactly when no key is assigned twice. -/
theorem length_ofList_eq_iff {entries : List (κ × α)} :
    (ofList entries).length = entries.length ↔ (keys entries).Nodup := by
  constructor
  · intro same
    have known : keys (ofList entries) ⊆ keys entries :=
      List.map_subset Prod.fst fun _ => mem_of_mem_ofList
    have perm : (keys (ofList entries)).Perm (keys entries) :=
      (List.subperm_of_subset (nodup_keys_ofList entries) known).perm_of_length_le
        (by simp only [keys, List.length_map, same, Nat.le_refl])
    exact perm.nodup_iff.mp (nodup_keys_ofList entries)
  · intro distinct
    rw [ofList_eq_self distinct]

/-- A dictionary tabulated over keys answers with the table. -/
theorem get?_tabulate (table : List κ) (f : κ → Option α) (key : κ) :
    get? (table.filterMap fun k => (f k).map fun v => (k, v)) key =
      if key ∈ table then f key else none := by
  induction table with
  | nil => rfl
  | cons first rest ih =>
    rw [List.filterMap_cons]
    by_cases hk : first = key
    · subst hk
      cases hf : f first with
      | none => simp [ih, hf]
      | some v => simp [get?]
    · cases hf : f first <;> simp [get?, hk, Ne.symm hk, ih]

theorem get?_map {β : Type} (d : Dictionary α κ) (f : α → β) (key : κ) :
    get? (d.map fun (k, v) => (k, f v)) key = (get? d key).map f := by
  induction d with
  | nil => rfl
  | cons entry rest ih =>
    obtain ⟨k, v⟩ := entry
    by_cases hk : k = key <;> simp [get?, hk, ih]

/-- Of distinct keys each one keeps its value in any order. -/
theorem get?_perm {d e : Dictionary α κ} (distinct : (keys d).Nodup) (perm : d.Perm e) (key : κ) :
    get? d key = get? e key := by
  have distinct' : (keys e).Nodup := (perm.map Prod.fst).nodup_iff.mp distinct
  apply Option.ext
  intro value
  constructor
  · exact fun h => get?_eq_of_mem distinct' (perm.mem_iff.mp (mem_of_get? h))
  · exact fun h => get?_eq_of_mem distinct (perm.mem_iff.mpr (mem_of_get? h))

theorem put_put (d : Dictionary α κ) (key : κ) (old value : α) :
    put (put d key old) key value = put d key value := by
  induction d with
  | nil => simp [put]
  | cons entry rest ih =>
    obtain ⟨k, v⟩ := entry
    by_cases hk : k = key <;> simp [put, hk, ih]

theorem put_eq_self {d : Dictionary α κ} {key : κ} {value : α} (h : get? d key = some value) :
    put d key value = d := by
  induction d with
  | nil => cases h
  | cons entry rest ih =>
    obtain ⟨k, v⟩ := entry
    unfold get? at h
    unfold put
    by_cases hk : k = key
    · rw [if_pos hk] at h ⊢
      cases h
      rfl
    · rw [if_neg hk] at h ⊢
      rw [ih h]

theorem put_map {β : Type} (d : Dictionary α κ) (f : α → β) (key : κ) (value : α) :
    (put d key value).map (fun (k, v) => (k, f v)) =
      put (d.map fun (k, v) => (k, f v)) key (f value) := by
  induction d with
  | nil => rfl
  | cons entry rest ih =>
    obtain ⟨k, v⟩ := entry
    by_cases hk : k = key <;> simp [put, hk, ih]

/-- What stands under a key does not matter once the key is assigned. -/
theorem put_map_congr {β : Type} {d : Dictionary α κ} {f g : α → β} {key : κ}
    (distinct : (keys d).Nodup) (same : ∀ k v, (k, v) ∈ d → k ≠ key → f v = g v) (value : β) :
    put (d.map fun (k, v) => (k, f v)) key value =
      put (d.map fun (k, v) => (k, g v)) key value := by
  induction d with
  | nil => rfl
  | cons entry rest ih =>
    obtain ⟨k, v⟩ := entry
    obtain ⟨new, others⟩ := List.nodup_cons.mp distinct
    have tail (j : κ) (w : α) (h : (j, w) ∈ rest) (hj : j ≠ key) : f w = g w :=
      same j w (List.mem_cons_of_mem _ h) hj
    by_cases hk : k = key
    · have equal : rest.map (fun (j, w) => (j, f w)) = rest.map fun (j, w) => (j, g w) := by
        apply List.map_congr_left
        rintro ⟨j, w⟩ h
        have hj : j ≠ key := by
          rintro rfl
          exact new (hk ▸ List.mem_map.mpr ⟨_, h, rfl⟩)
        simp only [tail j w h hj]
      simp only [List.map_cons, put, if_pos hk, equal]
    · simp only [List.map_cons, put, if_neg hk, ih others tail, same k v List.mem_cons_self hk]

/-- A dictionary after a sequence of assignments. -/
def assign (d entries : Dictionary α κ) : Dictionary α κ :=
  entries.foldl (fun d (key, value) => put d key value) d

/-- Of several assignments to one key the last one counts. -/
theorem get?_assign_eq_reverse (d entries : Dictionary α κ) (key : κ) :
    get? (assign d entries) key = (get? entries.reverse key).or (get? d key) := by
  induction entries generalizing d with
  | nil => rfl
  | cons entry rest ih =>
    obtain ⟨k, v⟩ := entry
    have step : assign d ((k, v) :: rest) = assign (put d k v) rest := rfl
    rw [step, ih, get?_put, List.reverse_cons, get?_append, Option.or_assoc]
    by_cases hk : k = key <;> simp [get?, hk]

theorem get?_ofList (entries : Dictionary α κ) (key : κ) :
    get? (ofList entries) key = get? entries.reverse key :=
  (get?_assign_eq_reverse [] entries key).trans Option.or_none

theorem get?_ofList_eq_none_iff {entries : Dictionary α κ} {key : κ} :
    get? (ofList entries) key = none ↔ key ∉ keys entries := by
  rw [get?_ofList, get?_eq_none_iff, keys, List.map_reverse, List.mem_reverse, keys]

theorem ofList_ne_nil {entries : List (κ × α)} (some : entries ≠ []) : ofList entries ≠ [] := by
  obtain ⟨⟨key, value⟩, rest, rfl⟩ := List.exists_cons_of_ne_nil some
  intro empty
  have missing : get? (ofList ((key, value) :: rest)) key = none := by
    rw [empty]
    rfl
  exact get?_ofList_eq_none_iff.mp missing List.mem_cons_self

theorem get?_assign {entries : Dictionary α κ} (distinct : (keys entries).Nodup)
    (d : Dictionary α κ) (key : κ) :
    get? (assign d entries) key = (get? entries key).or (get? d key) := by
  induction entries generalizing d with
  | nil => rfl
  | cons entry rest ih =>
    obtain ⟨k, v⟩ := entry
    obtain ⟨new, others⟩ := List.nodup_cons.mp distinct
    have step : assign d ((k, v) :: rest) = assign (put d k v) rest := rfl
    rw [step, ih others, get?_put, get?]
    by_cases hk : k = key
    · subst hk
      have none : get? rest k = none := get?_eq_none_iff.mpr new
      simp [none]
    · simp [hk]

theorem keys_assign {d entries : Dictionary α κ}
    (present : ∀ key ∈ keys entries, has d key = true) : keys (assign d entries) = keys d := by
  induction entries generalizing d with
  | nil => rfl
  | cons entry rest ih =>
    obtain ⟨k, v⟩ := entry
    have own : keys (put d k v) = keys d := by
      rw [keys_put, if_pos (present k List.mem_cons_self)]
    have step : assign d ((k, v) :: rest) = assign (put d k v) rest := rfl
    rw [step, ih, own]
    intro key hkey
    rw [has_iff, own]
    exact has_iff.mp (present key (List.mem_cons_of_mem _ hkey))

theorem assign_map {β : Type} (d entries : Dictionary α κ) (f : α → β) :
    (assign d entries).map (fun (k, v) => (k, f v)) =
      assign (d.map fun (k, v) => (k, f v)) (entries.map fun (k, v) => (k, f v)) := by
  induction entries generalizing d with
  | nil => rfl
  | cons entry rest ih =>
    obtain ⟨k, v⟩ := entry
    have step : assign d ((k, v) :: rest) = assign (put d k v) rest := rfl
    rw [step, ih, put_map]
    rfl

theorem ofList_map {β : Type} (entries : List (κ × α)) (f : α → β) :
    (ofList entries).map (fun (k, v) => (k, f v)) = ofList (entries.map fun (k, v) => (k, f v)) :=
  assign_map [] entries f

/-- Nothing changes when every key gets the value that it has. -/
theorem assign_eq_self {d entries : Dictionary α κ}
    (same : ∀ key value, (key, value) ∈ entries → get? d key = some value) :
    assign d entries = d := by
  induction entries with
  | nil => rfl
  | cons entry rest ih =>
    obtain ⟨k, v⟩ := entry
    have step : assign d ((k, v) :: rest) = assign (put d k v) rest := rfl
    rw [step, put_eq_self (same k v List.mem_cons_self)]
    exact ih fun key value hmem => same key value (List.mem_cons_of_mem _ hmem)

end ContentSchema.Dictionary
