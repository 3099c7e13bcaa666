import ContentSchema.Proofs.NameSupply
import Mathlib.Data.List.Induction

/-! Names over whole histories of requests to one namer. They stay apart exactly when no name is
reserved after a selector has got it. -/
namespace ContentSchema.Namer

/-- What a namer is asked. -/
inductive Request where
  | reserve (name : String)
  | nameFor (selector : String) (base : Option String)
deriving DecidableEq

def serve (n : Namer) : Request → Namer
  | .reserve name => n.reserve name
  | .nameFor selector base => (n.nameFor selector base).2

/-- The selector of a request with the name that it gets. Reserving is not answered. -/
def reply? (n : Namer) : Request → Option (String × String)
  | .reserve _ => none
  | .nameFor selector base => some (selector, (n.nameFor selector base).1)

/-- A fresh namer after some requests. -/
def served (requests : List Request) : Namer := requests.foldl serve empty

def repliesFrom : Namer → List Request → List (String × String)
  | _, [] => []
  | n, r :: rest => (n.reply? r).toList ++ repliesFrom (n.serve r) rest

/-- The selectors that a fresh namer is asked about, with their names. -/
def replies (requests : List Request) : List (String × String) := repliesFrom empty requests

private theorem repliesFrom_append (n : Namer) (a b : List Request) :
    repliesFrom n (a ++ b) = repliesFrom n a ++ repliesFrom (a.foldl serve n) b := by
  induction a generalizing n with
  | nil => rfl
  | cons r a ih => simp only [List.cons_append, repliesFrom, List.foldl_cons, ih, List.append_assoc]

theorem replies_append (a b : List Request) :
    replies (a ++ b) = replies a ++ repliesFrom (served a) b := repliesFrom_append empty a b

/-- Different selectors get different names, and no selector gets a name that is reserved for
something else. -/
def NamesApart (requests : List Request) : Prop :=
  (∀ s t name, (s, name) ∈ replies requests → (t, name) ∈ replies requests → s = t) ∧
    ∀ s name, (s, name) ∈ replies requests → .reserve name ∈ requests → s = name

/-- A name is reserved that another selector has got before. -/
def ReservedLate (requests : List Request) : Prop :=
  ∃ before name rest selector, requests = before ++ .reserve name :: rest ∧
    (selector, name) ∈ replies before ∧ selector ≠ name

/-- What ties a namer to its history while nothing is reserved late. -/
private structure Agrees (n : Namer) (requests : List Request) : Prop where
  remembered : ∀ s name, (s, name) ∈ replies requests → n.answer? s = some name
  faithful : n.Faithful
  claimed : ∀ name, .reserve name ∈ requests → n.owner? name = some name
  asked : ∀ s name, n.owner? name = some s → s = name ∨ (s, name) ∈ replies requests

private theorem agrees_empty : Agrees empty [] where
  remembered _ _ h := nomatch h
  faithful := faithful_empty
  claimed _ h := nomatch h
  asked _ _ h := nomatch h

private theorem Agrees.reserve {n : Namer} {requests : List Request} (h : Agrees n requests)
    (name : String) (inTime : ∀ s, (s, name) ∈ replies requests → s = name) :
    Agrees (n.reserve name) (requests ++ [.reserve name]) := by
  have same : replies (requests ++ [.reserve name]) = replies requests := by
    rw [replies_append]
    exact List.append_nil _
  have owned : (n.reserve name).owner? name = some name := by
    rw [owner?_reserve, if_pos rfl]
    cases howner : n.owner? name with
    | none => rfl
    | some s => rw [(h.asked s name howner).elim id (inTime s), Option.some_or]
  have kept {m owner : String} (hm : n.owner? m = some owner) :
      (n.reserve name).owner? m = some owner := by
    rw [owner?_reserve, hm, Option.some_or]
  constructor
  case remembered =>
    intro s m hs
    rw [same] at hs
    rw [answer?_reserve, h.remembered s m hs, Option.some_or]
  case faithful =>
    intro s m hs
    rw [answer?_reserve] at hs
    cases hold : n.answer? s with
    | some old =>
      rw [hold, Option.some_or] at hs
      exact kept (h.faithful s m (hold.trans hs))
    | none =>
      rw [hold, Option.none_or] at hs
      split at hs
      · rename_i heq
        cases hs
        subst heq
        exact owned
      · cases hs
  case claimed =>
    intro m hm
    rcases List.mem_append.mp hm with hm | hm
    · exact kept (h.claimed m hm)
    · cases List.mem_singleton.mp hm
      exact owned
  case asked =>
    intro s m hm
    rw [same]
    rw [owner?_reserve] at hm
    cases hold : n.owner? m with
    | some old =>
      rw [hold, Option.some_or] at hm
      exact h.asked s m (hold.trans hm)
    | none =>
      rw [hold, Option.none_or] at hm
      split at hm
      · rename_i heq
        cases hm
        exact Or.inl heq
      · cases hm

private theorem Agrees.nameFor {requests : List Request} (h : Agrees (served requests) requests)
    (selector : String) (base : Option String) :
    Agrees ((served requests).nameFor selector base).2 (requests ++ [.nameFor selector base]) := by
  have more : replies (requests ++ [.nameFor selector base]) =
      replies requests ++ [(selector, ((served requests).nameFor selector base).1)] := by
    rw [replies_append]
    rfl
  constructor
  case remembered =>
    intro s m hs
    rw [more] at hs
    rcases List.mem_append.mp hs with hs | hs
    · exact extends_nameFor _ selector base s m (h.remembered s m hs)
    · cases List.mem_singleton.mp hs
      exact answer?_nameFor _ selector base
  case faithful => exact h.faithful.nameFor selector base
  case claimed =>
    intro m hm
    rcases List.mem_append.mp hm with hm | hm
    · exact owner?_nameFor_of_some selector base (h.claimed m hm)
    · cases List.mem_singleton.mp hm
  case asked =>
    intro s m hm
    rw [more]
    rcases (served requests).nameFor_cases selector base with ⟨_, _, heq⟩ | ⟨name, _, _, heq⟩
    · rw [heq] at hm
      exact (h.asked s m hm).imp id (List.mem_append_left _)
    · rw [heq, owner?_tie] at hm
      split at hm
      · rename_i hname
        cases hm
        subst hname
        rw [heq]
        exact Or.inr (List.mem_append_right _ (List.mem_singleton_self _))
      · exact (h.asked s m hm).imp id (List.mem_append_left _)

private theorem agrees_served {requests : List Request} (inTime : ¬ ReservedLate requests) :
    Agrees (served requests) requests := by
  induction requests using List.reverseRecOn with
  | nil => exact agrees_empty
  | append_singleton requests r ih =>
    have earlier : ¬ ReservedLate requests := by
      rintro ⟨before, name, rest, s, rfl, hs, hne⟩
      exact inTime ⟨before, name, rest ++ [r], s, by simp, hs, hne⟩
    have step : served (requests ++ [r]) = (served requests).serve r := by
      rw [served, List.foldl_append]
      rfl
    rw [step]
    cases r with
    | reserve name =>
      apply (ih earlier).reserve name
      intro s hs
      by_contra hne
      exact inTime ⟨requests, name, [], s, rfl, hs, hne⟩
    | nameFor selector base => exact (ih earlier).nameFor selector base

/-- Reserving a name too late is the only way in which names come to coincide. -/
theorem namesApart_iff_not_reservedLate (requests : List Request) :
    NamesApart requests ↔ ¬ ReservedLate requests := by
  constructor
  · rintro ⟨_, apart⟩ ⟨before, name, rest, s, rfl, hs, hne⟩
    apply hne
    apply apart s name
    · rw [replies_append]
      exact List.mem_append_left _ hs
    · exact List.mem_append_right _ List.mem_cons_self
  · intro inTime
    have h := agrees_served inTime
    constructor
    · intro s t name hs ht
      have howner := h.faithful s name (h.remembered s name hs)
      exact Option.some.inj (howner.symm.trans (h.faithful t name (h.remembered t name ht)))
    · intro s name hs hname
      have howner := h.faithful s name (h.remembered s name hs)
      exact Option.some.inj (howner.symm.trans (h.claimed name hname))

/-- A record type that is registered after a nested type of its name, and is then asked for. -/
theorem reserved_late_shares_name :
    replies [.nameFor "Foo.bar" none, .reserve "FooBar", .nameFor "FooBar" none] =
        [("Foo.bar", "FooBar"), ("FooBar", "FooBar")] ∧
      ¬ NamesApart [.nameFor "Foo.bar" none, .reserve "FooBar", .nameFor "FooBar" none] := by
  have shared : replies [.nameFor "Foo.bar" none, .reserve "FooBar", .nameFor "FooBar" none] =
      [("Foo.bar", "FooBar"), ("FooBar", "FooBar")] := by decide +kernel
  refine ⟨shared, ?_⟩
  rintro ⟨apart, _⟩
  rw [shared] at apart
  exact absurd (apart "Foo.bar" "FooBar" "FooBar" (by simp) (by simp)) (by decide)

end ContentSchema.Namer
