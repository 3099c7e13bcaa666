import ContentSchema.Proofs.NameHistory

/-! The first request for a selector decides on its name. From the requests alone it can be told
whether the names of a list are ever given away. -/
namespace ContentSchema.Namer

/-- A selector is asked about, whatever its name is made of. -/
def Asked (requests : List Request) (selector : String) : Prop :=
  ∃ base, .nameFor selector base ∈ requests

theorem asked_append {a b : List Request} {selector : String} :
    Asked (a ++ b) selector ↔ Asked a selector ∨ Asked b selector := by
  simp only [Asked, List.mem_append, exists_or]

theorem served_concat (requests : List Request) (r : Request) :
    served (requests ++ [r]) = (served requests).serve r := by
  rw [served, List.foldl_append]
  rfl

theorem mem_replies_concat {requests : List Request} {r : Request} {reply : String × String} :
    reply ∈ replies (requests ++ [r]) ↔
      reply ∈ replies requests ∨ (served requests).reply? r = some reply := by
  have last : repliesFrom (served requests) [r] = ((served requests).reply? r).toList :=
    List.append_nil _
  rw [replies_append, List.mem_append, last, Option.mem_toList]

/-- A namer knows the selectors that were reserved or asked about, and no other ones. -/
theorem answer?_served_eq_none_iff {requests : List Request} {selector : String} :
    (served requests).answer? selector = none ↔
      .reserve selector ∉ requests ∧ ¬ Asked requests selector := by
  induction requests using List.reverseRecOn with
  | nil => simp [served, answer?, empty, Dictionary.get?, Asked]
  | append_singleton requests r ih =>
    rw [served_concat, asked_append, List.mem_append, List.mem_singleton]
    cases r with
    | reserve name =>
      have other : ¬ Asked [.reserve name] selector := by simp [Asked]
      rw [serve, answer?_reserve, Option.or_eq_none_iff, ih]
      by_cases same : name = selector
      · simp [same]
      · simp [same, other, Ne.symm same]
    | nameFor s base =>
      have own : Asked [.nameFor s base] selector ↔ s = selector := by simp [Asked, eq_comm]
      rw [own, serve]
      by_cases same : s = selector
      · subst same
        simp [answer?_nameFor]
      · have kept : ((served requests).nameFor s base).2.answer? selector =
            (served requests).answer? selector := by
          rcases (served requests).nameFor_cases s base with ⟨_, _, heq⟩ | ⟨_, _, _, heq⟩
          · rw [heq]
          · rw [heq, answer?_tie, if_neg same]
        simp [kept, ih, same]

/-- A selector that was reserved before anybody asks for it is its own name. -/
theorem answer?_served_of_reserved {requests : List Request} {selector : String}
    (reserved : .reserve selector ∈ requests) (fresh : ¬ Asked requests selector) :
    (served requests).answer? selector = some selector := by
  induction requests using List.reverseRecOn with
  | nil => cases reserved
  | append_singleton requests r ih =>
    rw [asked_append, not_or] at fresh
    rw [served_concat]
    rcases List.mem_append.mp reserved with before | last
    · have own := ih before fresh.1
      cases r with
      | reserve name => rw [serve, answer?_reserve, own, Option.some_or]
      | nameFor s base => exact extends_nameFor _ s base _ _ own
    · cases List.mem_singleton.mp last
      rw [serve, answer?_reserve, if_pos rfl]
      cases known : (served requests).answer? selector with
      | none => rfl
      | some name =>
        by_cases before : .reserve selector ∈ requests
        · rw [← known, ih before fresh.1]
          rfl
        · cases known.symm.trans (answer?_served_eq_none_iff.mpr ⟨before, fresh.1⟩)

/-- What is remembered for a selector was given away for it. -/
theorem exists_reply_of_asked {requests : List Request} {selector : String}
    (asked : Asked requests selector) :
    ∃ name, (served requests).answer? selector = some name ∧
      (selector, name) ∈ replies requests := by
  induction requests using List.reverseRecOn with
  | nil =>
    obtain ⟨_, none⟩ := asked
    cases none
  | append_singleton requests r ih =>
    simp only [served_concat, mem_replies_concat]
    by_cases before : Asked requests selector
    · obtain ⟨name, known, given⟩ := ih before
      refine ⟨name, ?_, Or.inl given⟩
      cases r with
      | reserve other => rw [serve, answer?_reserve, known, Option.some_or]
      | nameFor s base => exact extends_nameFor _ s base _ _ known
    · rcases asked_append.mp asked with h | ⟨base, h⟩
      · exact absurd h before
      · cases List.mem_singleton.mp h
        exact ⟨_, answer?_nameFor _ selector base, Or.inr rfl⟩

/-- Names are owned because they were reserved or given away. -/
theorem owned_cases {requests : List Request} {name : String}
    (owned : (served requests).owner? name ≠ none) :
    .reserve name ∈ requests ∨ ∃ selector, (selector, name) ∈ replies requests := by
  induction requests using List.reverseRecOn with
  | nil => exact absurd rfl owned
  | append_singleton requests r ih =>
    rw [served_concat] at owned
    simp only [List.mem_append, mem_replies_concat]
    by_cases before : (served requests).owner? name = none
    · cases r with
      | reserve other =>
        rw [serve, owner?_reserve, before, Option.none_or] at owned
        by_cases same : other = name
        · exact Or.inl (Or.inr (List.mem_singleton.mpr (same ▸ rfl)))
        · exact absurd (if_neg same) owned
      | nameFor s base =>
        rcases (served requests).nameFor_cases s base with ⟨_, _, heq⟩ | ⟨given, _, _, heq⟩
        · rw [serve, heq] at owned
          exact absurd before owned
        · rw [serve, heq, owner?_tie, before] at owned
          by_cases same : given = name
          · subst same
            exact Or.inr ⟨s, Or.inr (by rw [reply?, heq])⟩
          · exact absurd (if_neg same) owned
    · exact (ih before).imp Or.inl fun ⟨s, h⟩ => ⟨s, Or.inl h⟩

theorem owned_of_reserved {requests : List Request} {name : String}
    (reserved : .reserve name ∈ requests) : (served requests).owner? name ≠ none := by
  induction requests using List.reverseRecOn with
  | nil => cases reserved
  | append_singleton requests r ih =>
    rw [served_concat]
    rcases List.mem_append.mp reserved with before | last
    · obtain ⟨owner, known⟩ := Option.ne_none_iff_exists'.mp (ih before)
      cases r with
      | reserve other => simp [serve, owner?_reserve, known]
      | nameFor s base => simp [serve, owner?_nameFor_of_some s base known]
    · cases List.mem_singleton.mp last
      simp [serve, owner?_reserve]

/-- When the first request for a selector, made without a base after some other requests, gets none
of some names: a reserved selector is not one of them, and where one would be made of the selector
it is reserved. -/
structure Spares (names : List String) (before : List Request) (selector : String) : Prop where
  reserved : .reserve selector ∈ before → selector ∉ names
  made : .reserve selector ∉ before → TypeName.ofSelector selector ∈ names →
    .reserve (TypeName.ofSelector selector) ∈ before

section
variable {names : List String} {requests : List Request} {selector : String}

/-- The reply to the first request for a selector. -/
theorem nameFor_of_fresh (fresh : ¬ Asked requests selector) (base : Option String) :
    ((served requests).nameFor selector base).1 =
      if .reserve selector ∈ requests then selector
      else (served requests).freeName (TypeName.ofSelector (base.getD selector)) := by
  split
  · rename_i reserved
    rw [nameFor_of_answered (answer?_served_of_reserved reserved fresh)]
  · rename_i free
    exact nameFor_of_unknown (answer?_served_eq_none_iff.mpr ⟨free, fresh⟩) base

/-- What is given away for a selector is the selector itself, a name that is made for a request, or
a numbered name. -/
theorem reply_cases {name : String} (given : (selector, name) ∈ replies requests) :
    name = selector ∨
      (∃ base, .nameFor selector base ∈ requests ∧
        name = TypeName.ofSelector (base.getD selector)) ∨
      ∃ base k, name = numbered base k := by
  induction requests using List.reverseRecOn generalizing name with
  | nil => cases given
  | append_singleton requests r ih =>
    have earlier {name : String} (h : (selector, name) ∈ replies requests) :
        name = selector ∨
          (∃ base, .nameFor selector base ∈ requests ++ [r] ∧
            name = TypeName.ofSelector (base.getD selector)) ∨
          ∃ base k, name = numbered base k := by
      rcases ih h with same | ⟨base, asked, made⟩ | number
      · exact Or.inl same
      · exact Or.inr (Or.inl ⟨base, List.mem_append_left _ asked, made⟩)
      · exact Or.inr (Or.inr number)
    rcases mem_replies_concat.mp given with h | last
    · exact earlier h
    · cases r with
      | reserve other => cases last
      | nameFor s base =>
        obtain ⟨rfl, rfl⟩ := Prod.mk.inj (Option.some.inj last)
        by_cases again : Asked requests s
        · obtain ⟨name, known, given⟩ := exists_reply_of_asked again
          rw [nameFor_of_answered known]
          exact earlier given
        · rw [nameFor_of_fresh again]
          split
          · exact Or.inl rfl
          · refine Or.inr ?_
            rcases (served requests).freeName_cases (TypeName.ofSelector (base.getD s)) with
              ⟨_, same⟩ | ⟨_, k, _, number, _⟩
            · exact Or.inl ⟨base, List.mem_append_right _ (List.mem_singleton_self _), same⟩
            · exact Or.inr ⟨_, k + 2, number⟩

/-- A name that was made avoids some unnumbered names exactly when it was not to be one of them, or
the one that it was to be is reserved. -/
theorem freeName_notMem_iff (unnumbered : ∀ base k, numbered base k ∉ names)
    (clear : ∀ s name, (s, name) ∈ replies requests → name ∉ names) (base : String) :
    (served requests).freeName base ∉ names ↔ (base ∈ names → .reserve base ∈ requests) := by
  rcases (served requests).freeName_cases base with ⟨free, same⟩ | ⟨owned, k, _, number, _⟩
  · rw [same]
    refine ⟨fun out inside => absurd inside out, fun late inside => ?_⟩
    exact owned_of_reserved (late inside) (owns_eq_false_iff.mp free)
  · rw [number]
    refine iff_of_true (unnumbered base (k + 2)) fun inside => ?_
    rcases owned_cases (owner?_ne_none_of_owns owned) with reserved | ⟨s, given⟩
    · exact reserved
    · exact absurd inside (clear s base given)

theorem nameFor_notMem_iff (unnumbered : ∀ base k, numbered base k ∉ names)
    (clear : ∀ s name, (s, name) ∈ replies requests → name ∉ names)
    (fresh : ¬ Asked requests selector) :
    ((served requests).nameFor selector none).1 ∉ names ↔ Spares names requests selector := by
  rw [nameFor_of_fresh fresh]
  by_cases reserved : .reserve selector ∈ requests
  · rw [if_pos reserved]
    refine ⟨fun out => ⟨fun _ => out, fun free => ?_⟩, fun h => h.reserved reserved⟩
    exact absurd reserved free
  · rw [if_neg reserved, Option.getD_none, freeName_notMem_iff unnumbered clear]
    exact ⟨fun late => ⟨fun h => absurd h reserved, fun _ => late⟩, fun h => h.made reserved⟩

/-- None of some names, which are unnumbered and not made for the requests with a base, is ever
given away, exactly when every first request without a base is spared them. -/
theorem replies_avoid_iff (unnumbered : ∀ base k, numbered base k ∉ names)
    (apart : ∀ s base, .nameFor s (some base) ∈ requests →
      s ∉ names ∧ TypeName.ofSelector base ∉ names) :
    (∀ s name, (s, name) ∈ replies requests → name ∉ names) ↔
      ∀ before s rest, requests = before ++ .nameFor s none :: rest → ¬ Asked before s →
        Spares names before s := by
  induction requests using List.reverseRecOn with
  | nil => simp [replies, repliesFrom]
  | append_singleton requests r ih =>
    have earlier := ih fun s base h => apart s base (List.mem_append_left _ h)
    have splits : (∀ before s rest, requests ++ [r] = before ++ .nameFor s none :: rest →
        ¬ Asked before s → Spares names before s) ↔
        (∀ before s rest, requests = before ++ .nameFor s none :: rest → ¬ Asked before s →
          Spares names before s) ∧
        ∀ s, r = .nameFor s none → ¬ Asked requests s → Spares names requests s := by
      constructor
      · intro all
        refine ⟨fun before s rest h => all before s (rest ++ [r]) (by simp [h]), ?_⟩
        rintro s rfl
        exact all requests s [] rfl
      · rintro ⟨all, last⟩ before s rest h
        rcases List.eq_nil_or_concat rest with rfl | ⟨rest, final, rfl⟩
        · obtain ⟨rfl, heq⟩ := List.append_inj' h rfl
          exact last s (List.singleton_inj.mp heq)
        · have parts : requests ++ [r] = (before ++ .nameFor s none :: rest) ++ [final] := by
            simpa using h
          exact all before s rest (List.append_inj_left' parts rfl)
    rw [splits, ← earlier]
    simp only [mem_replies_concat, or_imp, forall_and]
    refine and_congr_right fun clear => ?_
    cases r with
    | reserve name => simp [reply?]
    | nameFor s base =>
      have last : (∀ t name, (served requests).reply? (.nameFor s base) = some (t, name) →
          name ∉ names) ↔ ((served requests).nameFor s base).1 ∉ names := by
        simp only [reply?, Option.some.injEq, Prod.mk.injEq]
        exact ⟨fun all => all s _ ⟨rfl, rfl⟩, fun out t name h => h.2 ▸ out⟩
      rw [last]
      by_cases asked : Asked requests s
      · obtain ⟨name, known, given⟩ := exists_reply_of_asked asked
        rw [nameFor_of_answered known]
        refine iff_of_true (clear s name given) ?_
        rintro t heq fresh
        cases heq
        exact absurd asked fresh
      · cases base with
        | none =>
          rw [nameFor_notMem_iff unnumbered clear asked]
          constructor
          · rintro spared t heq _
            cases heq
            exact spared
          · exact fun all => all s rfl asked
        | some base =>
          refine iff_of_true ?_ fun t heq => by cases heq
          obtain ⟨own, made⟩ := apart s base (List.mem_append_right _ (List.mem_singleton_self _))
          rw [nameFor_of_fresh asked]
          split
          · exact own
          · rw [freeName_notMem_iff unnumbered clear]
            exact fun inside => absurd inside made

end
end ContentSchema.Namer
