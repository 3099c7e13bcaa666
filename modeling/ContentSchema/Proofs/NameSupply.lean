import ContentSchema.Namer
import ContentSchema.Proofs.DecimalDigits
import ContentSchema.Proofs.DictionaryEntries
import Mathlib.Data.List.Nodup
import Mathlib.Data.List.Perm.Subperm

/-! One request to a namer. A remembered selector is answered as before; any other one gets a name
that nobody owns. -/
namespace ContentSchema.Namer

/-- The name remembered for a selector. -/
abbrev answer? (n : Namer) (selector : String) : Option String := Dictionary.get? n.answers selector

/-- The selector that owns a name. -/
abbrev owner? (n : Namer) (name : String) : Option String := Dictionary.get? n.owners name

theorem owns_eq_false_iff {n : Namer} {name : String} : n.owns name = false ↔ n.owner? name = none := by
  rw [owns, Dictionary.has, Option.isSome_eq_false_iff, Option.isNone_iff_eq_none]

theorem owner?_ne_none_of_owns {n : Namer} {name : String} (owned : n.owns name = true) :
    n.owner? name ≠ none := by
  intro free
  rw [owns_eq_false_iff.mpr free] at owned
  cases owned

theorem numbered_injective (base : String) : Function.Injective (numbered base) :=
  fun _ _ same => Text.toString_injective ((String.append_right_inj _).mp same)

/-- There are more numbers to try than owned names. -/
private theorem exists_free_number (n : Namer) (base : String) :
    ∃ i ∈ List.range (n.owners.length + 1), n.owns (numbered base (i + 2)) = false := by
  by_contra taken
  have distinct : ((List.range (n.owners.length + 1)).map fun i => numbered base (i + 2)).Nodup := by
    apply List.nodup_range.map
    intro i j h
    exact Nat.add_right_cancel (numbered_injective base h)
  have owned : ((List.range (n.owners.length + 1)).map fun i => numbered base (i + 2)) ⊆
      Dictionary.keys n.owners := by
    intro name hname
    obtain ⟨i, hi, rfl⟩ := List.mem_map.mp hname
    apply Dictionary.has_iff.mp
    by_contra hfree
    exact taken ⟨i, hi, by simpa [owns] using hfree⟩
  have hle := (List.subperm_of_subset distinct owned).length_le
  rw [List.length_map, List.length_range, Dictionary.keys, List.length_map] at hle
  omega

/-- A base that nobody owns is taken as it is; any other one gets the least number that is free. -/
theorem freeName_cases (n : Namer) (base : String) :
    n.owns base = false ∧ n.freeName base = base ∨
      n.owns base = true ∧ ∃ i ≤ n.owners.length, n.freeName base = numbered base (i + 2) ∧
        n.owns (numbered base (i + 2)) = false ∧
        ∀ j < i, n.owns (numbered base (j + 2)) = true := by
  cases owned : n.owns base with
  | false =>
    refine Or.inl ⟨rfl, ?_⟩
    rw [freeName, owned]
    rfl
  | true =>
    refine Or.inr ⟨rfl, ?_⟩
    simp only [freeName, owned, if_true, List.find?_map]
    cases found : (List.range (n.owners.length + 1)).find?
        ((fun name => !n.owns name) ∘ fun i => numbered base (i + 2)) with
    | none =>
      obtain ⟨i, hi, free⟩ := exists_free_number n base
      have taken := List.find?_eq_none.mp found i hi
      simp [free] at taken
    | some i =>
      obtain ⟨free, hi, least⟩ := List.find?_range_eq_some.mp found
      refine ⟨i, Nat.lt_succ_iff.mp (List.mem_range.mp hi), rfl, ?_, fun j hj => ?_⟩
      · simpa using free
      · simpa using least j hj

/-- Nobody owns the name that a namer makes up. -/
theorem owner?_freeName (n : Namer) (base : String) : n.owner? (n.freeName base) = none := by
  apply owns_eq_false_iff.mp
  rcases n.freeName_cases base with ⟨free, same⟩ | ⟨_, i, _, number, free, _⟩
  · rw [same, free]
  · rw [number, free]

/-- A namer in which a selector and a name are tied to each other. -/
def tie (n : Namer) (selector name : String) : Namer :=
  ⟨Dictionary.put n.answers selector name, Dictionary.put n.owners name selector⟩

theorem answer?_tie (n : Namer) (selector name s : String) :
    (n.tie selector name).answer? s = if selector = s then some name else n.answer? s :=
  Dictionary.get?_put n.answers selector s name

theorem owner?_tie (n : Namer) (selector name m : String) :
    (n.tie selector name).owner? m = if name = m then some selector else n.owner? m :=
  Dictionary.get?_put n.owners name m selector

/-- A request changes nothing when the selector is known; otherwise it ties a new name to it. -/
theorem nameFor_cases (n : Namer) (selector : String) (base : Option String) :
    (∃ name, n.answer? selector = some name ∧ n.nameFor selector base = (name, n)) ∨
      ∃ name, n.answer? selector = none ∧ n.owner? name = none ∧
        n.nameFor selector base = (name, n.tie selector name) := by
  unfold nameFor
  cases h : Dictionary.get? n.answers selector with
  | some name => exact Or.inl ⟨name, h, rfl⟩
  | none => exact Or.inr ⟨_, h, owner?_freeName n _, rfl⟩

theorem nameFor_of_answered {n : Namer} {selector name : String}
    (h : n.answer? selector = some name) (base : Option String) :
    n.nameFor selector base = (name, n) := by
  have known : Dictionary.get? n.answers selector = some name := h
  rw [nameFor, known]

/-- A selector that nothing is remembered for gets a name that is made up. -/
theorem nameFor_of_unknown {n : Namer} {selector : String} (unknown : n.answer? selector = none)
    (base : Option String) :
    (n.nameFor selector base).1 = n.freeName (TypeName.ofSelector (base.getD selector)) := by
  have absent : Dictionary.get? n.answers selector = none := unknown
  rw [nameFor, absent]

theorem answer?_reserve (n : Namer) (name s : String) :
    (n.reserve name).answer? s = (n.answer? s).or (if name = s then some name else none) :=
  Dictionary.get?_putNew n.answers name s name

theorem owner?_reserve (n : Namer) (name m : String) :
    (n.reserve name).owner? m = (n.owner? m).or (if name = m then some name else none) :=
  Dictionary.get?_putNew n.owners name m name

/-- Every remembered answer is owned by the selector it was given to. -/
def Faithful (n : Namer) : Prop :=
  ∀ selector name, n.answer? selector = some name → n.owner? name = some selector

/-- Everything remembered by one namer is remembered by another. -/
def Extends (n later : Namer) : Prop :=
  ∀ selector name, n.answer? selector = some name → later.answer? selector = some name

theorem Extends.refl (n : Namer) : n.Extends n := fun _ _ h => h

theorem Extends.trans {a b c : Namer} (hab : a.Extends b) (hbc : b.Extends c) : a.Extends c :=
  fun s name h => hbc s name (hab s name h)

theorem faithful_empty : Faithful empty := fun _ _ h => nomatch h

/-- A faithful namer remembers different names for different selectors. -/
theorem Faithful.answer?_eq_iff {n : Namer} (h : n.Faithful) {s t a b : String}
    (hs : n.answer? s = some a) (ht : n.answer? t = some b) : a = b ↔ s = t := by
  constructor
  · rintro rfl
    exact Option.some.inj ((h s a hs).symm.trans (h t a ht))
  · rintro rfl
    exact Option.some.inj (hs.symm.trans ht)

section
variable (n : Namer) (selector : String) (base : Option String)

theorem answer?_nameFor :
    (n.nameFor selector base).2.answer? selector = some (n.nameFor selector base).1 := by
  rcases n.nameFor_cases selector base with ⟨name, known, h⟩ | ⟨name, _, _, h⟩
  · rw [h]
    exact known
  · rw [h, answer?_tie, if_pos rfl]

theorem extends_nameFor : n.Extends (n.nameFor selector base).2 := by
  rcases n.nameFor_cases selector base with ⟨name, _, h⟩ | ⟨name, new, _, h⟩
  · rw [h]
    exact .refl n
  · rw [h]
    intro s m hs
    have hne : selector ≠ s := by
      rintro rfl
      cases new.symm.trans hs
    rw [answer?_tie, if_neg hne, hs]

/-- A request that was made before is answered as then, and changes nothing. -/
theorem nameFor_again {n later : Namer} (kept : (n.nameFor selector base).2.Extends later) :
    later.nameFor selector base = ((n.nameFor selector base).1, later) :=
  nameFor_of_answered (kept _ _ (answer?_nameFor n selector base)) base

/-- Owned names keep their owners. -/
theorem owner?_nameFor_of_some {n : Namer} {name owner : String} (h : n.owner? name = some owner) :
    (n.nameFor selector base).2.owner? name = some owner := by
  rcases n.nameFor_cases selector base with ⟨_, _, heq⟩ | ⟨m, _, free, heq⟩
  · rw [heq]
    exact h
  · rw [heq]
    have hne : m ≠ name := by
      rintro rfl
      cases free.symm.trans h
    rw [owner?_tie, if_neg hne, h]

theorem Faithful.nameFor {n : Namer} (h : n.Faithful) : (n.nameFor selector base).2.Faithful := by
  rcases n.nameFor_cases selector base with ⟨_, _, heq⟩ | ⟨m, new, free, heq⟩
  · rw [heq]
    exact h
  · intro s name hs
    by_cases hne : selector = s
    · subst hne
      rw [heq, answer?_tie, if_pos rfl] at hs
      cases hs
      rw [heq, owner?_tie, if_pos rfl]
    · rw [heq, answer?_tie, if_neg hne] at hs
      exact owner?_nameFor_of_some selector base (h s name hs)

end

/-- What requests make of a namer: it forgets nothing and stays faithful. -/
structure Grows (n later : Namer) : Prop where
  kept : n.Extends later
  faithful : n.Faithful → later.Faithful

theorem Grows.refl (n : Namer) : n.Grows n := ⟨.refl n, id⟩

theorem Grows.trans {a b c : Namer} (hab : a.Grows b) (hbc : b.Grows c) : a.Grows c :=
  ⟨hab.kept.trans hbc.kept, fun h => hbc.faithful (hab.faithful h)⟩

theorem grows_nameFor (n : Namer) (selector : String) (base : Option String) :
    n.Grows (n.nameFor selector base).2 :=
  ⟨extends_nameFor n selector base, fun h => h.nameFor selector base⟩

end ContentSchema.Namer
