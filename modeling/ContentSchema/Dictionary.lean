/-! Ordered dictionaries. A key keeps its first position; a later value replaces an earlier one. -/
namespace ContentSchema

/-- Entries in order, by default under texts. -/
abbrev Dictionary (α : Type) (κ : Type := String) := List (κ × α)

namespace Dictionary
variable {α κ : Type} [DecidableEq κ]

def get? (d : Dictionary α κ) (key : κ) : Option α :=
  match d with
  | [] => none
  | (k, v) :: rest => if k = key then some v else get? rest key

def has (d : Dictionary α κ) (key : κ) : Bool := (get? d key).isSome

def put (d : Dictionary α κ) (key : κ) (value : α) : Dictionary α κ :=
  match d with
  | [] => [(key, value)]
  | (k, v) :: rest => if k = key then (k, value) :: rest else (k, v) :: put rest key value

/-- Add an entry unless its key is present. -/
def putNew (d : Dictionary α κ) (key : κ) (value : α) : Dictionary α κ :=
  if has d key then d else d ++ [(key, value)]

def keys (d : Dictionary α κ) : List κ := d.map Prod.fst

def values (d : Dictionary α κ) : List α := d.map Prod.snd

theorem get?_put (d : Dictionary α κ) (key k : κ) (value : α) :
    get? (put d key value) k = if key = k then some value else get? d k := by
  induction d with
  | nil => rfl
  | cons entry rest ih =>
    obtain ⟨j, old⟩ := entry
    unfold put
    by_cases h : j = key
    · subst h
      by_cases hk : j = k <;> simp [get?, hk]
    · rw [if_neg h]
      by_cases hk : j = k
      · subst hk
        simp [get?, Ne.symm h]
      · simp [get?, hk, ih]

theorem keys_put (d : Dictionary α κ) (key : κ) (value : α) :
    keys (put d key value) = if has d key then keys d else keys d ++ [key] := by
  induction d with
  | nil => rfl
  | cons entry rest ih =>
    obtain ⟨j, old⟩ := entry
    unfold keys has at ih ⊢
    unfold put
    by_cases h : j = key
    · simp [get?, h]
    · simp only [h, if_false, List.map_cons, ih, get?]
      split <;> simp

/-- The dictionary that a sequence of assignments leaves. -/
def ofList (entries : List (κ × α)) : Dictionary α κ :=
  entries.foldl (fun d (key, value) => put d key value) []

end Dictionary
end ContentSchema
