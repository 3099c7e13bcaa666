import ContentSchema.Proofs.DepthFirst
import ContentSchema.Proofs.PrintedNames
import Mathlib.Data.List.Nodup

/-! A schema is closed: it defines what it mentions, once, and nothing that its roots do not
reach. -/
namespace ContentSchema.Graph
variable {κ : Type} [DecidableEq κ]

/-- The definitions that types lead to, by themselves or through other definitions. -/
inductive Reaches (g : Graph κ) (types : List (SchemaType κ)) :
    Definition (SchemaType κ) → Prop where
  | root {t : SchemaType κ} {d : Definition (SchemaType κ)} (here : t ∈ types)
      (found : g.definition? t = some d) : Reaches g types d
  | child {t : SchemaType κ} {d e : Definition (SchemaType κ)} (above : Reaches g types e)
      (below : t ∈ e.children) (found : g.definition? t = some d) : Reaches g types d

/-- The types that a schema shows: its roots, and those of the fields and arguments of what it
defines. -/
def Shows (roots : List (SchemaType κ)) (listed : List (Definition (SchemaType κ)))
    (t : SchemaType κ) : Prop :=
  t ∈ roots ∨ ∃ d ∈ listed, t ∈ d.children

section
variable {g : Graph κ} {seen after : List String} {types : List (SchemaType κ)}
  {listed : List (Definition (SchemaType κ))}

theorem Reaches.of_children {t : SchemaType κ} {d e : Definition (SchemaType κ)}
    (here : t ∈ types) (found : g.definition? t = some d) (h : g.Reaches d.children e) :
    g.Reaches types e := by
  induction h with
  | root below found' => exact .child (.root here found) below found'
  | child _ below found' ih => exact .child ih below found'

theorem Reaches.mono {more : List (SchemaType κ)} (subset : types ⊆ more)
    {d : Definition (SchemaType κ)} (h : g.Reaches types d) : g.Reaches more d := by
  induction h with
  | root here found => exact .root (subset here) found
  | child _ below found ih => exact .child ih below found

namespace Preorder

/-- A traversal meets the names of what it lists. -/
theorem after_eq (h : g.Preorder seen types listed after) :
    after = (listed.map Definition.name).reverse ++ seen := by
  induction h with
  | nil => rfl
  | stop _ _ ih => exact ih
  | visit _ _ _ _ below others => simp [others, below]

theorem seen_subset (h : g.Preorder seen types listed after) : seen ⊆ after := by
  rw [h.after_eq]
  exact List.subset_append_right _ _

/-- No name is met twice. -/
theorem nodup_after (h : g.Preorder seen types listed after) (distinct : seen.Nodup) :
    after.Nodup := by
  induction h with
  | nil => exact distinct
  | stop _ _ ih => exact ih distinct
  | visit _ new _ _ below others => exact others (below (List.nodup_cons.mpr ⟨new, distinct⟩))

theorem reaches_of_mem (h : g.Preorder seen types listed after) :
    ∀ d ∈ listed, g.Reaches types d := by
  induction h with
  | nil => exact nofun
  | stop _ _ ih => exact fun d hd => (ih d hd).mono (List.subset_cons_self _ _)
  | visit found _ _ _ below others =>
    intro e he
    rcases List.mem_cons.mp he with rfl | he
    · exact .root List.mem_cons_self found
    · rcases List.mem_append.mp he with he | he
      · exact .of_children List.mem_cons_self found (below e he)
      · exact (others e he).mono (List.subset_cons_self _ _)

/-- In the end a traversal has met everything that comes up on the way. -/
theorem name_mem_after (h : g.Preorder seen types listed after) {t : SchemaType κ}
    {d : Definition (SchemaType κ)} (shown : Shows types listed t)
    (found : g.definition? t = some d) : d.name ∈ after := by
  induction h with
  | nil => simp [Shows] at shown
  | stop stops others ih =>
    rcases shown with here | below
    · rcases List.mem_cons.mp here with rfl | here
      · exact others.seen_subset (stops_iff.mp stops d found)
      · exact ih (Or.inl here)
    · exact ih (Or.inr below)
  | visit found' new children others inner ih =>
    rcases shown with here | ⟨e, he, below⟩
    · rcases List.mem_cons.mp here with rfl | here
      · cases found.symm.trans found'
        exact others.seen_subset (children.seen_subset List.mem_cons_self)
      · exact ih (Or.inl here)
    · rcases List.mem_cons.mp he with rfl | he
      · exact others.seen_subset (inner (Or.inl below))
      · rcases List.mem_append.mp he with he | he
        · exact others.seen_subset (inner (Or.inr ⟨e, he, below⟩))
        · exact ih (Or.inr ⟨e, he, below⟩)

end Preorder
end

section
variable (g : Graph κ) (roots : List (SchemaType κ))

theorem nodup_names_collect : ((g.collect roots).map Definition.name).Nodup := by
  obtain ⟨after, h⟩ := g.preorder_collectFrom [] roots
  have distinct := h.nodup_after List.nodup_nil
  rw [h.after_eq, List.append_nil, List.nodup_reverse] at distinct
  exact distinct

theorem reaches_of_mem_collect {d : Definition (SchemaType κ)} (hd : d ∈ g.collect roots) :
    g.Reaches roots d := by
  obtain ⟨after, h⟩ := g.preorder_collectFrom [] roots
  exact h.reaches_of_mem d hd

variable {g roots}

theorem name_mem_collect {t : SchemaType κ} {d : Definition (SchemaType κ)}
    (shown : Shows roots (g.collect roots) t) (found : g.definition? t = some d) :
    d.name ∈ (g.collect roots).map Definition.name := by
  obtain ⟨after, h⟩ := g.preorder_collectFrom [] roots
  have met := h.name_mem_after shown found
  rw [h.after_eq, List.append_nil, List.mem_reverse] at met
  exact met

end

/-- What is collected from some roots has distinct names, is reached from them, and has the name of
every definition that a root, a field or an argument leads to. So each definition that the printed
schema mentions heads one block of it. -/
theorem collect_closed (g : Graph κ) (roots : List (SchemaType κ)) :
    ((g.collect roots).map Definition.name).Nodup ∧
      (∀ d ∈ g.collect roots, g.Reaches roots d) ∧
      (∀ t d, Shows roots (g.collect roots) t → g.definition? t = some d →
        d.name ∈ (g.collect roots).map Definition.name) ∧
      ∀ schema, g.text roots = .ok schema → ∃ fragments, g.fragments roots = .ok fragments ∧
        Fragment.textOf fragments = schema ∧
        Fragment.headings fragments = (g.collect roots).map Definition.name ∧
        (Fragment.mentions fragments).Perm
          ((g.collect roots).flatMap fun d => d.children.flatMap g.innerNames) ∧
        ∀ name ∈ Fragment.mentions fragments, (Fragment.headings fragments).count name = 1 := by
  refine ⟨g.nodup_names_collect roots, fun d => g.reaches_of_mem_collect roots,
    fun t d => name_mem_collect, ?_⟩
  intro schema printed
  rw [text_eq] at printed
  cases hfragments : g.fragments roots with
  | error e =>
    rw [hfragments] at printed
    cases printed
  | ok fragments =>
    rw [hfragments] at printed
    obtain ⟨mentioned, headed⟩ := names_of_fragments hfragments
    refine ⟨fragments, rfl, Except.ok.inj printed, headed, mentioned, fun name hname => ?_⟩
    obtain ⟨d, hd, hname⟩ := List.mem_flatMap.mp (mentioned.mem_iff.mp hname)
    obtain ⟨t, ht, hname⟩ := List.mem_flatMap.mp hname
    obtain ⟨e, found, rfl⟩ := mem_innerNames.mp hname
    rw [headed]
    exact List.count_eq_one_of_mem (g.nodup_names_collect roots)
      (name_mem_collect (Or.inr ⟨d, hd, ht⟩) found)

end ContentSchema.Graph
