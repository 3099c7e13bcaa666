import Mathlib.Data.List.Forall2
import Mathlib.Data.List.Pairwise

/-! Lists mapped by a function that may fail. -/
namespace ContentSchema
variable {α β γ ε : Type} {f : α → Except ε β} {l : List α} {bs : List β}

theorem mapM_cons_eq_ok_iff {a : α} : (a :: l).mapM f = .ok bs ↔
    ∃ b rest, f a = .ok b ∧ l.mapM f = .ok rest ∧ bs = b :: rest := by
  rw [List.mapM_cons]
  cases f a with
  | error e => simp [bind, Except.bind]
  | ok b => cases l.mapM f <;> simp [bind, Except.bind, pure, Except.pure, eq_comm]

theorem mapM_eq_ok_iff : l.mapM f = .ok bs ↔ List.Forall₂ (fun a b => f a = .ok b) l bs := by
  induction l generalizing bs with
  | nil => simp [pure, Except.pure, eq_comm]
  | cons a l ih => simp only [mapM_cons_eq_ok_iff, ih, List.forall₂_cons_left_iff]

theorem mapM_map (g : β → γ) : (l.mapM fun a => (f a).map g) = (l.mapM f).map (List.map g) := by
  induction l with
  | nil => rfl
  | cons a l ih =>
    rw [List.mapM_cons, List.mapM_cons, ih]
    cases f a with
    | error e => rfl
    | ok b => cases l.mapM f <;> rfl

theorem exists_mapM_of_forall (h : ∀ a ∈ l, ∃ b, f a = .ok b) : ∃ bs, l.mapM f = .ok bs := by
  induction l with
  | nil => exact ⟨[], rfl⟩
  | cons a l ih =>
    obtain ⟨b, first⟩ := h a List.mem_cons_self
    obtain ⟨rest, others⟩ := ih fun c mem => h c (List.mem_cons_of_mem a mem)
    exact ⟨b :: rest, mapM_cons_eq_ok_iff.mpr ⟨b, rest, first, others, rfl⟩⟩

theorem mem_iff_of_mapM (h : l.mapM f = .ok bs) {b : β} : b ∈ bs ↔ ∃ a ∈ l, f a = .ok b := by
  replace h := mapM_eq_ok_iff.mp h
  induction h with
  | nil => simp
  | cons first _ ih =>
    simp only [List.mem_cons, exists_eq_or_imp, first, Except.ok.injEq, ih, eq_comm (a := b)]

theorem exists_mem_of_mapM (h : l.mapM f = .ok bs) {a : α} (mem : a ∈ l) :
    ∃ b ∈ bs, f a = .ok b := by
  replace h := mapM_eq_ok_iff.mp h
  induction h with
  | nil => cases mem
  | cons first _ ih =>
    obtain rfl | mem := List.mem_cons.mp mem
    · exact ⟨_, List.mem_cons_self, first⟩
    · obtain ⟨d, inRest, found⟩ := ih mem
      exact ⟨d, List.mem_cons_of_mem _ inRest, found⟩

theorem pairwise_of_mapM {R : β → β → Prop} (h : l.mapM f = .ok bs) (apart : bs.Pairwise R) :
    l.Pairwise fun a b => ∀ x y, f a = .ok x → f b = .ok y → R x y := by
  induction l generalizing bs with
  | nil => exact .nil
  | cons a l ih =>
    obtain ⟨c, rest, first, others, rfl⟩ := mapM_cons_eq_ok_iff.mp h
    obtain ⟨apartFromRest, apart⟩ := List.pairwise_cons.mp apart
    refine .cons (fun b mem x y here there => ?_) (ih others apart)
    obtain rfl : c = x := by rwa [first, Except.ok.injEq] at here
    exact apartFromRest y ((mem_iff_of_mapM others).mpr ⟨b, mem, there⟩)

end ContentSchema
