import Mathlib.Data.List.Basic

/-! Texts put together with a separator, and taken apart at it. -/
namespace ContentSchema.Text
variable {α : Type}

/-- No separator is left in what stands between separators. -/
theorem not_of_mem_splitOnP {p : α → Bool} {text piece : List α} (h : piece ∈ text.splitOnP p) :
    ∀ c ∈ piece, p c = false := by
  induction text generalizing piece with
  | nil =>
    rw [List.splitOnP_nil, List.mem_singleton] at h
    rw [h]
    exact nofun
  | cons d text ih =>
    obtain ⟨first, rest, split⟩ := List.exists_cons_of_ne_nil (List.splitOnP_ne_nil p text)
    rw [List.splitOnP_cons_eq_if_modifyHead, split] at h
    rw [split] at ih
    split at h
    · rcases List.mem_cons.mp h with rfl | h
      · exact nofun
      · exact ih h
    · rename_i other
      rw [List.modifyHead_cons] at h
      rcases List.mem_cons.mp h with rfl | h
      · exact List.forall_mem_cons.mpr ⟨Bool.eq_false_iff.mpr other, ih List.mem_cons_self⟩
      · exact ih (List.mem_cons_of_mem _ h)

/-- Parts without the separator can be read back from the text that they make. -/
theorem intercalate_inj [DecidableEq α] {separator : α} {a b : List (List α)}
    (ha : ∀ part ∈ a, separator ∉ part) (hb : ∀ part ∈ b, separator ∉ part)
    (some : a ≠ []) (some' : b ≠ []) :
    [separator].intercalate a = [separator].intercalate b ↔ a = b := by
  refine ⟨fun h => ?_, congrArg _⟩
  rw [← List.splitOn_intercalate separator ha some, h, List.splitOn_intercalate separator hb some']

/-- A part that stays apart from `n` copies of a separator: they are not in it, and it does not end
in one. -/
structure StaysApart (n : Nat) (separator : α) (part : List α) : Prop where
  single : ¬ List.replicate n separator <:+: part
  ends : part.getLast? ≠ some separator

/-- The copies do not begin before the end of a part. -/
theorem StaysApart.eq_nil {n : Nat} {u : α} {k m x y : List α} (apart : StaysApart n u (k ++ m))
    (h : List.replicate n u ++ x = m ++ y) : m = [] := by
  have copies : List.replicate n u <+: m ++ y := ⟨x, h⟩
  -- Either all copies fit into what is left of the part, or this is nothing but copies.
  rcases List.prefix_or_prefix_of_prefix copies (List.prefix_append m y) with inside | short
  · exact absurd (inside.isInfix.trans (List.suffix_append k m).isInfix) apart.single
  · by_contra some
    have last : m.getLast some = u := List.eq_of_mem_replicate (short.subset (List.getLast_mem some))
    refine apart.ends ?_
    rw [List.getLast?_append_of_ne_nil _ some, List.getLast?_eq_getLast_of_ne_nil some, last]

/-- A part before the copies can be told from what comes after them. -/
theorem append_replicate_inj {n : Nat} {u : α} {k l x y : List α} (hk : StaysApart n u k)
    (hl : StaysApart n u l) (h : k ++ List.replicate n u ++ x = l ++ List.replicate n u ++ y) :
    k = l ∧ x = y := by
  have same : k = l := by
    rw [List.append_assoc, List.append_assoc, List.append_eq_append_iff] at h
    obtain ⟨m, rfl, h⟩ | ⟨m, rfl, h⟩ := h
    · rw [hl.eq_nil h, List.append_nil]
    · rw [hk.eq_nil h, List.append_nil]
  subst same
  exact ⟨rfl, List.append_cancel_left h⟩

/-- Parts can be read back from the text that they make with several copies of a separator. -/
theorem intercalate_replicate_inj {n : Nat} {u : α} {a b : List (List α)}
    (ha : ∀ part ∈ a, StaysApart n u part) (hb : ∀ part ∈ b, StaysApart n u part)
    (some : a ≠ []) (some' : b ≠ [])
    (h : (List.replicate n u).intercalate a = (List.replicate n u).intercalate b) : a = b := by
  have longer {k : List α} (hk : StaysApart n u k) (l rest : List α) :
      k ≠ l ++ List.replicate n u ++ rest := by
    rintro rfl
    exact hk.single (List.infix_append l (List.replicate n u) rest)
  induction a generalizing b with
  | nil => exact absurd rfl some
  | cons k a ih =>
    obtain ⟨l, b, rfl⟩ := List.exists_cons_of_ne_nil some'
    obtain ⟨hk, ha⟩ := List.forall_mem_cons.mp ha
    obtain ⟨hl, others⟩ := List.forall_mem_cons.mp hb
    cases a with
    | nil =>
      rw [List.intercalate_singleton] at h
      cases b with
      | nil => rw [h, List.intercalate_singleton]
      | cons l' b =>
        rw [List.intercalate_cons_cons] at h
        exact absurd h (longer hk l _)
    | cons k' a =>
      rw [List.intercalate_cons_cons] at h
      cases b with
      | nil =>
        rw [List.intercalate_singleton] at h
        exact absurd h.symm (longer hl k _)
      | cons l' b =>
        rw [List.intercalate_cons_cons] at h
        obtain ⟨rfl, rest⟩ := append_replicate_inj hk hl h
        rw [ih ha others nofun nofun rest]

end ContentSchema.Text
