import ContentSchema.Proofs.FirstRequests

/-! The search for a free name. Numbers are tried one after the other without a bound; the search
ends since there are only so many owned names, and it ends at the least number that is free. -/
namespace ContentSchema.Namer

/-- The search for a name from a candidate on, with the number reached so far. While somebody owns
the candidate, the next number is tried. A search that goes on for ever is not related to any
name. -/
inductive Search (n : Namer) (base : String) :
    (rounds number : Nat) → (candidate found : String) → Prop where
  | free {number : Nat} {candidate : String} (free : n.owns candidate = false) :
      Search n base 0 number candidate candidate
  | taken {rounds number : Nat} {candidate found : String} (owned : n.owns candidate = true)
      (next : Search n base rounds (number + 1) (numbered base (number + 1)) found) :
      Search n base (rounds + 1) number candidate found

section
variable {n : Namer} {base : String}

/-- A search passes over the numbers that are taken. -/
private theorem search_of_taken {rounds number : Nat} {candidate : String}
    (owned : n.owns candidate = true)
    (between : ∀ j < rounds, n.owns (numbered base (number + 1 + j)) = true)
    (free : n.owns (numbered base (number + 1 + rounds)) = false) :
    n.Search base (rounds + 1) number candidate (numbered base (number + 1 + rounds)) := by
  induction rounds generalizing number candidate with
  | zero => exact .taken owned (.free free)
  | succ rounds ih =>
    have later (j : Nat) : number + 1 + (j + 1) = number + 1 + 1 + j := by omega
    have first : n.owns (numbered base (number + 1)) = true := between 0 (Nat.succ_pos rounds)
    rw [later] at free ⊢
    refine .taken owned (ih first (fun j hj => ?_) free)
    rw [← later]
    exact between (j + 1) (Nat.succ_lt_succ hj)

/-- The search for a name ends, after at most one round more than there are owned names. -/
theorem exists_search (n : Namer) (base : String) :
    ∃ rounds ≤ n.owners.length + 1, n.Search base rounds 1 base (n.freeName base) := by
  rcases n.freeName_cases base with ⟨free, same⟩ | ⟨owned, i, few, number, free, least⟩
  · refine ⟨0, Nat.zero_le _, ?_⟩
    rw [same]
    exact .free free
  · have shift (j : Nat) : j + 2 = 1 + 1 + j := Nat.add_comm j 2
    refine ⟨i + 1, Nat.succ_le_succ few, ?_⟩
    rw [shift] at number free
    rw [number]
    exact search_of_taken owned (fun j hj => shift j ▸ least j hj) free

/-- Where a search ends. -/
theorem Search.found_cases {rounds number : Nat} {candidate found : String}
    (search : n.Search base rounds number candidate found) :
    n.owns candidate = false ∧ found = candidate ∨
      n.owns candidate = true ∧ ∃ k > number, found = numbered base k ∧
        n.owns (numbered base k) = false ∧
        ∀ j, number < j → j < k → n.owns (numbered base j) = true := by
  induction search with
  | free free => exact Or.inl ⟨free, rfl⟩
  | @taken _ number _ _ owned _ ih =>
    refine Or.inr ⟨owned, ?_⟩
    rcases ih with ⟨free, rfl⟩ | ⟨next, k, hk, rfl, free, least⟩
    · refine ⟨number + 1, Nat.lt_succ_self number, rfl, free, fun j above below => ?_⟩
      omega
    · refine ⟨k, Nat.lt_of_succ_lt hk, rfl, free, fun j above below => ?_⟩
      rcases Nat.eq_or_lt_of_le above with rfl | beyond
      · exact next
      · exact least j beyond below

end

/-- What was answered once is remembered ever after. -/
theorem answer?_of_mem_replies {requests : List Request} {selector name : String}
    (given : (selector, name) ∈ replies requests) :
    (served requests).answer? selector = some name := by
  induction requests using List.reverseRecOn with
  | nil => cases given
  | append_singleton requests r ih =>
    rw [served_concat]
    rcases mem_replies_concat.mp given with before | last
    · cases r with
      | reserve other => rw [serve, answer?_reserve, ih before, Option.some_or]
      | nameFor s base => exact extends_nameFor _ s base _ _ (ih before)
    · cases r with
      | reserve other => cases last
      | nameFor s base =>
        obtain ⟨rfl, rfl⟩ := Prod.mk.inj (Option.some.inj last)
        exact answer?_nameFor _ _ base

/-- Owned names keep their owners, whatever is asked later. -/
theorem owner?_served_append {requests : List Request} {name owner : String}
    (known : (served requests).owner? name = some owner) (later : List Request) :
    (served (requests ++ later)).owner? name = some owner := by
  induction later using List.reverseRecOn with
  | nil => rwa [List.append_nil]
  | append_singleton later r ih =>
    rw [← List.append_assoc, served_concat]
    cases r with
    | reserve other => rw [serve, owner?_reserve, ih, Option.some_or]
    | nameFor s base => exact owner?_nameFor_of_some s base ih

/-- After any requests, a selector that was answered gets the same name again, whatever the base,
and nothing changes. A request is answered from memory or by a search that ends. For a selector with
no remembered name it ends with the name that is made of the base when nobody owns it, and else with
the least number from two on that is free. No name is ever given up. -/
theorem nameFor_least_free (requests : List Request) (selector : String) (base : Option String) :
    let n := served requests
    let first := TypeName.ofSelector (base.getD selector)
    (∀ name, (selector, name) ∈ replies requests → n.nameFor selector base = (name, n)) ∧
      ((∃ name, n.answer? selector = some name ∧ n.nameFor selector base = (name, n)) ∨
        ∃ rounds ≤ n.owners.length + 1,
          n.Search first rounds 1 first (n.nameFor selector base).1) ∧
      (n.answer? selector = none →
        (n.owns first = false → (n.nameFor selector base).1 = first) ∧
        (n.owns first = true → ∃ k ≥ 2, (n.nameFor selector base).1 = numbered first k ∧
          n.owns (numbered first k) = false ∧
          ∀ j ≥ 2, j < k → n.owns (numbered first j) = true)) ∧
      ∀ later name owner, n.owner? name = some owner →
        (served (requests ++ later)).owner? name = some owner := by
  intro n first
  refine ⟨?again, ?ends, ?new, fun later _ _ known => owner?_served_append known later⟩
  case again =>
    intro name given
    exact nameFor_of_answered (answer?_of_mem_replies given) base
  case ends =>
    cases known : n.answer? selector with
    | some name => exact Or.inl ⟨name, rfl, nameFor_of_answered known base⟩
    | none =>
      rw [nameFor_of_unknown known]
      exact Or.inr (exists_search n first)
  case new =>
    intro unknown
    obtain ⟨_, _, search⟩ := exists_search n first
    rw [nameFor_of_unknown unknown]
    rcases search.found_cases with ⟨free, same⟩ | ⟨owned, k, above, number, free, least⟩
    · refine ⟨fun _ => same, fun owned => ?_⟩
      cases free.symm.trans owned
    · refine ⟨fun free => ?_, fun _ => ⟨k, above, number, free, fun j hj => least j hj⟩⟩
      cases free.symm.trans owned

end ContentSchema.Namer
