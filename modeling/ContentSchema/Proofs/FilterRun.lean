import ContentSchema.FilterFields

/-! Runs of filter inference: what happens to one value and to one key, and the induction over
both. -/
namespace ContentSchema.FilterFields

/-- Every scalar is compared for equality with its own kind; membership is asked of lists only. -/
theorem get?_operators {kind : Kind} {s : Scalar} (h : Scalar.ofKind? kind = some s) :
    Dictionary.get? (operators kind) "eq" = some (plain (.scalar s)) ∧
      Dictionary.get? (operators kind) "ne" = some (plain (.scalar s)) ∧
      Dictionary.get? (operators kind) "in" = none := by
  unfold operators
  rw [h]
  cases s <;> exact ⟨rfl, rfl, rfl⟩

section
variable (path stem : String) (n : Namer)

theorem ofValue_list {w head : Value} {rest : List Value} (h : w.items? = some (head :: rest)) :
    ofValue path stem w n = ofList path stem head (ofValue (path ++ "[]") stem head) n := by
  cases w with
  | list items =>
    cases h
    rw [ofValue]
  | tuple items =>
    cases h
    rw [ofValue]
  | _ => cases h

/-- A list of scalars is compared as a whole and with each member. -/
theorem ofValue_scalars {w head : Value} {rest : List Value} {s : Scalar}
    (h : w.items? = some (head :: rest)) (hs : Scalar.ofKind? (kindOf head) = some s) :
    ofValue path stem w n =
      (some (input (nameAt path stem "QueryList" n).1
        (operators (kindOf head) ++ [("in", plain (.list (.scalar s)))])),
        (nameAt path stem "QueryList" n).2) := by
  rw [ofValue_list path stem n h, ofList, hs]
  rfl

/-- A list of containers takes its name first, and keeps it when its members cannot be compared. -/
theorem ofValue_containers {w head : Value} {rest : List Value}
    (h : w.items? = some (head :: rest)) (hk : kindOf head = .list ∨ kindOf head = .object) :
    ofValue path stem w n =
      ((ofValue (path ++ "[]") stem head (nameAt path stem "QueryList" n).2).1.map fun field =>
        input (nameAt path stem "QueryList" n).1 [("in", plain (.list field.type))],
        (ofValue (path ++ "[]") stem head (nameAt path stem "QueryList" n).2).2) := by
  have hs : Scalar.ofKind? (kindOf head) = none := by
    rcases hk with hk | hk <;> rw [hk] <;> rfl
  rw [ofValue_list path stem n h, ofList, hs]
  simp only [hk, if_true]
  rfl

theorem ofValue_others {w head : Value} {rest : List Value} (h : w.items? = some (head :: rest))
    (hs : Scalar.ofKind? (kindOf head) = none) (hk : ¬ (kindOf head = .list ∨ kindOf head = .object)) :
    ofValue path stem w n = (none, n) := by
  rw [ofValue_list path stem n h, ofList, hs]
  simp only [hk, if_false]
  rfl

theorem ofValue_empty {w : Value} (h : w.items? = some []) : ofValue path stem w n = (none, n) := by
  cases w with
  | list items =>
    cases h
    simp only [ofValue]
    rfl
  | tuple items =>
    cases h
    simp only [ofValue]
    rfl
  | _ => cases h

theorem ofValue_single {w : Value} (noSequence : w.items? = none) (noMapping : w.fields? = none) :
    ofValue path stem w n = match Scalar.ofKind? (kindOf w) with
      | none => (none, n)
      | some s => (some (input (nameAt path stem (ending s) n).1 (operators (kindOf w))),
        (nameAt path stem (ending s) n).2) := by
  have h : ofValue path stem w n = ofScalar path stem w n := by
    cases w with
    | list _ => cases noSequence
    | tuple _ => cases noSequence
    | mapping _ => cases noMapping
    | _ => simp only [ofValue]
  rw [h, ofScalar]
  cases Scalar.ofKind? (kindOf w) <;> rfl

theorem ofValue_mapping (fields : List (String × Value)) :
    ofValue path stem (.mapping fields) n = match ofFields path stem fields n with
      | ([], after) => (none, after)
      | (found, after) => (some (input (nameAt path stem "InputObject" after).1 found),
        (nameAt path stem "InputObject" after).2) := by
  rw [ofValue]
  simp only [bind, StateT.bind]
  obtain ⟨found, after⟩ := ofFields path stem fields n
  cases found <;> rfl

/-- The stem of the names below a key. -/
def stemBelow (stem key : String) : String := stem ++ Text.capitalFirst (LinkKey.clean key)

theorem ofFields_cons (key : String) (v : Value) (rest : List (String × Value)) :
    ofFields path stem ((key, v) :: rest) n =
      match ofValue (path ++ "." ++ key) (stemBelow stem key) v n with
      | (none, between) => ofFields path stem rest between
      | (some f, between) => ((key, f) :: (ofFields path stem rest between).1,
        (ofFields path stem rest between).2) := by
  unfold stemBelow
  rw [ofFields]
  simp only [bind, StateT.bind]
  rcases ofValue (path ++ "." ++ key) (stem ++ Text.capitalFirst (LinkKey.clean key)) v n with
    ⟨_ | f, between⟩ <;> rfl

end

section
variable {P : String → String → Value → Namer → Option FilterField → Namer → Prop}
variable {Q : String → String → List (String × Value) → Namer → Dictionary FilterField → Namer → Prop}

/-- Induction over runs. `P` speaks of a value, `Q` of the fields of a mapping; both of the names
before, of what is found and of the names after. -/
theorem run_induction
    (scalars : ∀ path stem w head rest s n, w.items? = some (head :: rest) →
      Scalar.ofKind? (kindOf head) = some s →
      P path stem w n (some (input (nameAt path stem "QueryList" n).1
        (operators (kindOf head) ++ [("in", plain (.list (.scalar s)))])))
        (nameAt path stem "QueryList" n).2)
    (containers : ∀ path stem w head rest n found after, w.items? = some (head :: rest) →
      (kindOf head = .list ∨ kindOf head = .object) →
      P (path ++ "[]") stem head (nameAt path stem "QueryList" n).2 found after →
      P path stem w n (found.map fun field =>
        input (nameAt path stem "QueryList" n).1 [("in", plain (.list field.type))]) after)
    (others : ∀ path stem w head rest n, w.items? = some (head :: rest) →
      Scalar.ofKind? (kindOf head) = none → ¬ (kindOf head = .list ∨ kindOf head = .object) →
      P path stem w n none n)
    (empty : ∀ path stem w n, w.items? = some [] → P path stem w n none n)
    (single : ∀ path stem w s n, w.items? = none → w.fields? = none →
      Scalar.ofKind? (kindOf w) = some s →
      P path stem w n (some (input (nameAt path stem (ending s) n).1 (operators (kindOf w))))
        (nameAt path stem (ending s) n).2)
    (unknown : ∀ path stem w n, w.items? = none → w.fields? = none →
      Scalar.ofKind? (kindOf w) = none → P path stem w n none n)
    (noField : ∀ path stem fields n after, Q path stem fields n [] after →
      P path stem (.mapping fields) n none after)
    (object : ∀ path stem fields n found after, Q path stem fields n found after → found ≠ [] →
      P path stem (.mapping fields) n (some (input (nameAt path stem "InputObject" after).1 found))
        (nameAt path stem "InputObject" after).2)
    (nil : ∀ path stem n, Q path stem [] n [] n)
    (skipped : ∀ path stem key v rest n between found after,
      P (path ++ "." ++ key) (stemBelow stem key) v n none between →
      Q path stem rest between found after → Q path stem ((key, v) :: rest) n found after)
    (cons : ∀ path stem key v rest n f between found after,
      P (path ++ "." ++ key) (stemBelow stem key) v n (some f) between →
      Q path stem rest between found after →
      Q path stem ((key, v) :: rest) n ((key, f) :: found) after) :
    (∀ path stem v n, P path stem v n (ofValue path stem v n).1 (ofValue path stem v n).2) ∧
      ∀ path stem fields n, Q path stem fields n (ofFields path stem fields n).1
        (ofFields path stem fields n).2 := by
  have list (path stem : String) (w head : Value) (rest : List Value)
      (h : w.items? = some (head :: rest))
      (ih : ∀ n, P (path ++ "[]") stem head n (ofValue (path ++ "[]") stem head n).1
        (ofValue (path ++ "[]") stem head n).2) (n : Namer) :
      P path stem w n (ofValue path stem w n).1 (ofValue path stem w n).2 := by
    cases hs : Scalar.ofKind? (kindOf head) with
    | some s =>
      rw [ofValue_scalars path stem n h hs]
      exact scalars _ _ _ _ _ _ _ h hs
    | none =>
      by_cases hk : kindOf head = .list ∨ kindOf head = .object
      · rw [ofValue_containers path stem n h hk]
        exact containers _ _ _ _ _ _ _ _ h hk (ih _)
      · rw [ofValue_others path stem n h hs hk]
        exact others _ _ _ _ _ _ h hs hk
  have plain (path stem : String) (w : Value) (noSequence : w.items? = none)
      (noMapping : w.fields? = none) (n : Namer) :
      P path stem w n (ofValue path stem w n).1 (ofValue path stem w n).2 := by
    rw [ofValue_single path stem n noSequence noMapping]
    cases hs : Scalar.ofKind? (kindOf w) with
    | some s => exact single _ _ _ _ _ noSequence noMapping hs
    | none => exact unknown _ _ _ _ noSequence noMapping hs
  refine ofValue.mutual_induct
    (fun path stem v => ∀ n, P path stem v n (ofValue path stem v n).1 (ofValue path stem v n).2)
    (fun path stem fields => ∀ n, Q path stem fields n (ofFields path stem fields n).1
      (ofFields path stem fields n).2)
    ?list ?tuple ?mapping ?other ?noKeys ?key
  case list => exact fun path stem head rest ih => list path stem _ head rest rfl ih
  case tuple => exact fun path stem head rest ih => list path stem _ head rest rfl ih
  case mapping =>
    intro path stem fields ih n
    have inner := ih n
    rw [ofValue_mapping]
    revert inner
    rcases ofFields path stem fields n with ⟨_ | ⟨field, found⟩, after⟩
    · exact noField _ _ _ _ _
    · exact fun inner => object _ _ _ _ _ _ inner (List.cons_ne_nil _ _)
  case other =>
    intro path stem v noList noTuple noMapping n
    cases v with
    | list items =>
      cases items with
      | nil =>
        rw [ofValue_empty path stem n rfl]
        exact empty _ _ _ _ rfl
      | cons head rest => exact absurd rfl (noList head rest)
    | tuple items =>
      cases items with
      | nil =>
        rw [ofValue_empty path stem n rfl]
        exact empty _ _ _ _ rfl
      | cons head rest => exact absurd rfl (noTuple head rest)
    | mapping fields => exact absurd rfl (noMapping fields)
    | _ => exact plain path stem _ rfl rfl n
  case noKeys => exact fun path stem n => nil path stem n
  case key =>
    intro path stem key v rest ihv ih n
    have inner := ihv n
    rw [ofFields_cons, stemBelow]
    revert inner
    rcases ofValue (path ++ "." ++ key) (stem ++ Text.capitalFirst (LinkKey.clean key)) v n with
      ⟨_ | f, between⟩
    · exact fun inner => skipped _ _ _ _ _ _ _ _ _ inner (ih between)
    · exact fun inner => cons _ _ _ _ _ _ _ _ _ _ inner (ih between)

end
end ContentSchema.FilterFields
