import ContentSchema.Schema.Graph

/-! Types visited depth first. Working through the types from a stack lists the definitions that the
recursive traversal lists, in its order. -/
namespace ContentSchema.Graph
variable {κ : Type} [DecidableEq κ]

/-- The types that a traversal goes no further at, by the names that it has met so far. -/
inductive Stops (g : Graph κ) (seen : List String) (t : SchemaType κ) : Prop where
  | scalar {s : Scalar} (plain : t.inner = .scalar s)
  | dangling {key : κ} (link : t.inner = .link key) (missing : g.get? key = none)
  | known {d : Definition (SchemaType κ)} (found : g.definition? t = some d) (old : d.name ∈ seen)

/-- The recursive traversal of some types in preorder: the names that it has met before, the types,
the definitions that it lists, and the names that it has met in the end. Wrappers are taken off
first. -/
inductive Preorder (g : Graph κ) :
    List String → List (SchemaType κ) → List (Definition (SchemaType κ)) → List String → Prop where
  | nil {seen : List String} : Preorder g seen [] [] seen
  | stop {seen after : List String} {t : SchemaType κ} {rest : List (SchemaType κ)}
      {listed : List (Definition (SchemaType κ))} (stops : g.Stops seen t)
      (others : Preorder g seen rest listed after) : Preorder g seen (t :: rest) listed after
  /-- A definition is listed when its name is new. Its fields are visited next, the type of each
  followed by those of its arguments, and after them the other types. -/
  | visit {seen between after : List String} {t : SchemaType κ} {rest : List (SchemaType κ)}
      {d : Definition (SchemaType κ)} {below listed : List (Definition (SchemaType κ))}
      (found : g.definition? t = some d) (new : d.name ∉ seen)
      (children : Preorder g (d.name :: seen) d.children below between)
      (others : Preorder g between rest listed after) :
      Preorder g seen (t :: rest) (d :: below ++ listed) after

section
variable {g : Graph κ} {seen after : List String}

/-- Only scalars and links that lead nowhere have no definition. -/
theorem definition?_eq_none_iff {t : SchemaType κ} :
    g.definition? t = none ↔
      (∃ s, t.inner = .scalar s) ∨ ∃ key, t.inner = .link key ∧ g.get? key = none := by
  induction t using SchemaType.inner.induct with
  | case1 item ih | case2 item ih => exact ih
  | case3 t noList noNonNull =>
    cases t with
    | list item => exact (noList item rfl).elim
    | nonNull item => exact (noNonNull item rfl).elim
    | _ => simp [definition?, SchemaType.inner]

theorem stops_iff {t : SchemaType κ} :
    g.Stops seen t ↔ ∀ d, g.definition? t = some d → d.name ∈ seen := by
  constructor
  · rintro (plain | ⟨link, missing⟩ | ⟨found, old⟩) d hd
    · cases (definition?_eq_none_iff.mpr (Or.inl ⟨_, plain⟩)).symm.trans hd
    · cases (definition?_eq_none_iff.mpr (Or.inr ⟨_, link, missing⟩)).symm.trans hd
    · cases found.symm.trans hd
      exact old
  · intro old
    cases found : g.definition? t with
    | some d => exact .known found (old d found)
    | none =>
      rcases definition?_eq_none_iff.mp found with ⟨s, plain⟩ | ⟨key, link, missing⟩
      · exact .scalar plain
      · exact .dangling link missing

/-- What becomes of the type at the top of the stack. -/
private theorem collectFrom_cons (t : SchemaType κ) (rest : List (SchemaType κ)) :
    g.collectFrom seen (t :: rest) =
      match g.definition? t with
      | none => g.collectFrom seen rest
      | some d =>
        if d.name ∈ seen then g.collectFrom seen rest
        else d :: g.collectFrom (d.name :: seen) (d.children ++ rest) := by
  induction t using SchemaType.inner.induct with
  | case1 item ih | case2 item ih =>
    rw [collectFrom]
    exact ih
  | case3 t noList noNonNull =>
    cases t with
    | list item => exact (noList item rfl).elim
    | nonNull item => exact (noNonNull item rfl).elim
    | scalar s =>
      rw [collectFrom]
      rfl
    | named d =>
      rw [collectFrom]
      rfl
    | link key =>
      rw [collectFrom]
      change _ = match g.get? key with
        | none => _
        | some d => _
      split <;> simp_all

theorem collectFrom_of_stops {t : SchemaType κ} (stops : g.Stops seen t)
    (rest : List (SchemaType κ)) : g.collectFrom seen (t :: rest) = g.collectFrom seen rest := by
  rw [collectFrom_cons]
  cases found : g.definition? t with
  | none => rfl
  | some d => exact if_pos (stops_iff.mp stops d found)

theorem collectFrom_of_new {t : SchemaType κ} {d : Definition (SchemaType κ)}
    (found : g.definition? t = some d) (new : d.name ∉ seen) (rest : List (SchemaType κ)) :
    g.collectFrom seen (t :: rest) =
      d :: g.collectFrom (d.name :: seen) (d.children ++ rest) := by
  rw [collectFrom_cons, found]
  exact if_neg new

namespace Preorder

/-- What lies below on the stack waits until the traversal of what lies above is over. -/
theorem collectFrom_append {types : List (SchemaType κ)}
    {listed : List (Definition (SchemaType κ))} (h : g.Preorder seen types listed after)
    (rest : List (SchemaType κ)) :
    g.collectFrom seen (types ++ rest) = listed ++ g.collectFrom after rest := by
  induction h generalizing rest with
  | nil => rfl
  | stop stops _ ih => rw [List.cons_append, collectFrom_of_stops stops, ih]
  | visit found new _ _ below others =>
    rw [List.cons_append, collectFrom_of_new found new, below, others, List.cons_append,
      List.cons_append, List.append_assoc]

/-- A traversal of two lists of types is one of the first and then one of the second. -/
theorem split {a b : List (SchemaType κ)} {listed : List (Definition (SchemaType κ))}
    (h : g.Preorder seen (a ++ b) listed after) :
    ∃ first between second, g.Preorder seen a first between ∧ g.Preorder between b second after ∧
      listed = first ++ second := by
  induction a generalizing seen listed with
  | nil => exact ⟨[], seen, listed, .nil, h, rfl⟩
  | cons t a ih =>
    cases h with
    | stop stops others =>
      obtain ⟨first, between, second, ha, hb, rfl⟩ := ih others
      exact ⟨first, between, second, .stop stops ha, hb, rfl⟩
    | visit found new children others =>
      obtain ⟨first, between, second, ha, hb, rfl⟩ := ih others
      exact ⟨_, between, second, .visit found new children ha, hb, by simp⟩

/-- What is inside the wrappers decides. -/
theorem of_inner {t u : SchemaType κ} {rest : List (SchemaType κ)}
    {listed : List (Definition (SchemaType κ))} (same : t.inner = u.inner)
    (h : g.Preorder seen (t :: rest) listed after) : g.Preorder seen (u :: rest) listed after := by
  have definition : g.definition? t = g.definition? u := by
    unfold definition?
    rw [same]
  cases h with
  | stop stops others =>
    rw [stops_iff, definition, ← stops_iff] at stops
    exact .stop stops others
  | visit found new children others => exact .visit (definition ▸ found) new children others

end Preorder

/-- Every stack can be traversed, however the definitions refer to each other. -/
theorem preorder_collectFrom (g : Graph κ) (seen : List String) (stack : List (SchemaType κ)) :
    ∃ after, g.Preorder seen stack (g.collectFrom seen stack) after := by
  -- A definition that is not listed yet puts its children on the stack, before the rest.
  have visited {seen : List String} {t : SchemaType κ} {rest : List (SchemaType κ)}
      {d : Definition (SchemaType κ)} (found : g.definition? t = some d) (new : d.name ∉ seen)
      (ih : ∃ after, g.Preorder (d.name :: seen) (d.children ++ rest)
        (g.collectFrom (d.name :: seen) (d.children ++ rest)) after) :
      ∃ after, g.Preorder seen (t :: rest) (g.collectFrom seen (t :: rest)) after := by
    obtain ⟨after, h⟩ := ih
    obtain ⟨below, between, listed, children, others, heq⟩ := h.split
    rw [collectFrom_of_new found new, heq]
    exact ⟨after, .visit found new children others⟩
  have passed {seen : List String} {t : SchemaType κ} {rest : List (SchemaType κ)}
      (stops : g.Stops seen t)
      (ih : ∃ after, g.Preorder seen rest (g.collectFrom seen rest) after) :
      ∃ after, g.Preorder seen (t :: rest) (g.collectFrom seen (t :: rest)) after := by
    obtain ⟨after, h⟩ := ih
    rw [collectFrom_of_stops stops]
    exact ⟨after, .stop stops h⟩
  induction seen, stack using collectFrom.induct g with
  | case1 seen =>
    rw [collectFrom]
    exact ⟨seen, .nil⟩
  | case2 seen s rest ih => exact passed (.scalar rfl) ih
  | case3 seen item rest ih | case4 seen item rest ih =>
    obtain ⟨after, h⟩ := ih
    rw [collectFrom]
    exact ⟨after, .of_inner (t := item) rfl h⟩
  | case5 seen d rest old ih => exact passed (.known rfl old) ih
  | case6 seen d rest new ih => exact visited rfl new ih
  | case7 seen key rest missing ih => exact passed (.dangling rfl missing) ih
  | case8 seen key rest d found old ih => exact passed (.known found old) ih
  | case9 seen key rest d found new ih => exact visited found new ih

end

/-- The traversal from some roots comes to an end, whatever cycles there are, and lists what is
collected from them; nothing else is a traversal of them. -/
theorem preorder_iff_eq_collect (g : Graph κ) (roots : List (SchemaType κ))
    (listed : List (Definition (SchemaType κ))) :
    (∃ after, g.Preorder [] roots listed after) ↔ listed = g.collect roots := by
  constructor
  · rintro ⟨after, h⟩
    have run := h.collectFrom_append []
    rw [List.append_nil, collectFrom, List.append_nil] at run
    exact run.symm
  · rintro rfl
    exact preorder_collectFrom g [] roots

/-- Two types that link to each other are listed once each. -/
example :
    let post : Definition (SchemaType String) := .object "Post" [("by", ⟨.link "author", [], none⟩)]
    let author : Definition (SchemaType String) :=
      .object "Author" [("posts", ⟨.nonNull (.list (.link "post")), [], none⟩)]
    collect [("post", post), ("author", author)] [.link "post", .scalar .int] = [post, author] := by
  cbv

end ContentSchema.Graph
