import ContentSchema.Proofs.RecordedDependencies
import Mathlib.Data.List.Induction

/-! Identifiers that are refused. What is recorded at a path does not suffer from them, but a path
where the first identifier is refused becomes known all the same. -/
namespace ContentSchema.Dependencies

/-- An identifier that is to be recorded at a path. -/
structure Call where
  path : String
  id : Value

/-- Whether an identifier is refused. -/
def refuses (d : Dependencies) (c : Call) : Bool :=
  match (d.add c.path c.id).1 with
  | .ok () => false
  | .error _ => true

/-- What a call leaves, whether it is refused or not. -/
def make (d : Dependencies) (c : Call) : Dependencies := (d.add c.path c.id).2

/-- What some calls leave of a fresh start. -/
def afterCalls (calls : List Call) : Dependencies := calls.foldl make []

def takenFrom : Dependencies → List Call → List Call
  | _, [] => []
  | d, c :: rest => (if d.refuses c then [] else [c]) ++ takenFrom (d.make c) rest

/-- The calls that are not refused, of those that are made one after the other. -/
def taken (calls : List Call) : List Call := takenFrom [] calls

theorem refuses_eq (d : Dependencies) (c : Call) : d.refuses c = !c.id.isHashable := by
  unfold refuses add
  cases c.id.isHashable <;> rfl

theorem afterCalls_concat (calls : List Call) (c : Call) :
    afterCalls (calls ++ [c]) = (afterCalls calls).make c := by
  rw [afterCalls, List.foldl_append]
  rfl

theorem taken_concat (calls : List Call) (c : Call) :
    taken (calls ++ [c]) = taken calls ++ if (afterCalls calls).refuses c then [] else [c] := by
  have append (d : Dependencies) :
      takenFrom d (calls ++ [c]) =
        takenFrom d calls ++ if (calls.foldl make d).refuses c then [] else [c] := by
    induction calls generalizing d with
    | nil => exact List.append_nil _
    | cons first calls ih => rw [List.cons_append, takenFrom, takenFrom, ih, List.append_assoc]; rfl
  exact append []

theorem isHashable_of_mem_taken {calls : List Call} {c : Call} (h : c ∈ taken calls) :
    c.id.isHashable = true := by
  induction calls using List.reverseRecOn with
  | nil => cases h
  | append_singleton calls last ih =>
    rw [taken_concat] at h
    rcases List.mem_append.mp h with before | now
    · exact ih before
    · split at now
      · cases now
      · rename_i taken
        cases List.mem_singleton.mp now
        rw [refuses_eq] at taken
        simpa using taken

/-- Nothing is recorded by a call that is refused. -/
theorem idsFor_make_of_refuses {d : Dependencies} {c : Call} (refused : d.refuses c = true)
    (path : String) : (d.make c).idsFor path = d.idsFor path := by
  rw [refuses_eq, Bool.not_eq_true'] at refused
  unfold make add
  rw [refused]
  exact idsFor_addPath d c.path path

private theorem eraseDups_concat (table : List String) (key : String) :
    (table ++ [key]).eraseDups =
      if key ∈ table then table.eraseDups else table.eraseDups ++ [key] := by
  rw [List.eraseDups_append]
  by_cases known : key ∈ table <;> simp [List.removeAll, List.eraseDups_cons, known]

/-- Known are the paths of all calls, in the order of the first one at each. -/
theorem paths_afterCalls (calls : List Call) :
    (afterCalls calls).paths = (calls.map Call.path).eraseDups := by
  induction calls using List.reverseRecOn with
  | nil => rfl
  | append_singleton calls c ih =>
    rw [afterCalls_concat, make, paths_add, ih, List.map_append, List.map_singleton,
      eraseDups_concat]
    simp only [List.mem_eraseDups]

/-- What is collected of some identifiers when those that are alike count as one. -/
structure Collects (ids given : List Value) : Prop where
  among : ∀ id ∈ ids, id ∈ given
  present : ∀ id ∈ given, ∃ kept ∈ ids, kept.alike id = true
  apart : ids.Pairwise fun a b => a.alike b = false

theorem Collects.concat {ids given : List Value} (h : Collects ids given)
    (hashable : ∀ id ∈ given, id.isHashable = true) {id : Value} (own : id.isHashable = true) :
    Collects (if ids.any id.alike = false then ids ++ [id] else ids) (given ++ [id]) := by
  have known : ∀ i ∈ ids, i ∈ given ++ [id] := fun i hi => List.mem_append_left _ (h.among i hi)
  split
  · rename_i new
    refine ⟨fun i hi => ?_, fun i hi => ?_, ?_⟩
    · exact (List.mem_append.mp hi).elim (known i) (List.mem_append_right _)
    · rcases List.mem_append.mp hi with old | last
      · obtain ⟨kept, hkept, alike⟩ := h.present i old
        exact ⟨kept, List.mem_append_left _ hkept, alike⟩
      · cases List.mem_singleton.mp last
        exact ⟨id, List.mem_append_right _ last, Value.alike_refl own⟩
    · refine List.pairwise_append.mpr ⟨h.apart, List.pairwise_singleton _ _, fun i hi j hj => ?_⟩
      cases List.mem_singleton.mp hj
      rw [Bool.eq_false_iff]
      intro alike
      exact (List.any_eq_false.mp new) i hi (Value.alike_symm (hashable i (h.among i hi)) alike)
  · rename_i old
    obtain ⟨kept, hkept, alike⟩ := List.any_eq_true.mp (Bool.not_eq_false _ ▸ old)
    refine ⟨known, fun i hi => ?_, h.apart⟩
    rcases List.mem_append.mp hi with old | last
    · exact h.present i old
    · cases List.mem_singleton.mp last
      exact ⟨kept, hkept, Value.alike_symm own alike⟩

/-- The identifiers that some calls have at a path. -/
def idsAt (path : String) (calls : List Call) : List Value :=
  (calls.filter fun c => c.path == path).map Call.id

/-- At a path are recorded the identifiers that were not refused there. -/
theorem collects_afterCalls (calls : List Call) (path : String) :
    Collects ((afterCalls calls).idsFor path) (idsAt path (taken calls)) := by
  induction calls using List.reverseRecOn with
  | nil => exact ⟨nofun, nofun, List.Pairwise.nil⟩
  | append_singleton calls c ih =>
    rw [afterCalls_concat, taken_concat]
    cases refused : (afterCalls calls).refuses c with
    | true =>
      rw [idsFor_make_of_refuses refused]
      simpa using ih
    | false =>
      have hashable : c.id.isHashable = true := by
        rw [refuses_eq] at refused
        simpa using refused
      have earlier : ∀ id ∈ idsAt path (taken calls), id.isHashable = true := by
        intro id hid
        obtain ⟨other, hother, rfl⟩ := List.mem_map.mp hid
        exact isHashable_of_mem_taken (List.mem_filter.mp hother).1
      rw [make, idsFor_add _ _ hashable]
      by_cases here : c.path = path
      · subst here
        have more : idsAt c.path (taken calls ++ [c]) = idsAt c.path (taken calls) ++ [c.id] := by
          simp [idsAt]
        simpa [more] using ih.concat earlier hashable
      · have same : idsAt path (taken calls ++ [c]) = idsAt path (taken calls) := by
          simp [idsAt, here]
        simpa [same, here] using ih

/-- Calls that are refused leave no trace, and all others are recorded. -/
structure Atomic (calls : List Call) : Prop where
  paths : (afterCalls calls).paths = ((taken calls).map Call.path).eraseDups
  ids : ∀ path, Collects ((afterCalls calls).idsFor path) (idsAt path (taken calls))
  unchanged : ∀ before c rest, calls = before ++ c :: rest →
    (afterCalls before).refuses c = true →
      ((afterCalls before).make c).paths = (afterCalls before).paths ∧
        ∀ path, ((afterCalls before).make c).idsFor path = (afterCalls before).idsFor path

/-- Every call that is refused comes after one that was taken at its path. -/
def TakenFirst (calls : List Call) : Prop :=
  ∀ before c rest, calls = before ++ c :: rest → (afterCalls before).refuses c = true →
    ∃ earlier ∈ taken before, earlier.path = c.path

theorem TakenFirst.of_append {calls rest : List Call} (h : TakenFirst (calls ++ rest)) :
    TakenFirst calls := by
  intro before c between split
  refine h before c (between ++ rest) ?_
  rw [split, List.append_assoc, List.cons_append]

/-- Then something was taken wherever there is a call, first things first. -/
theorem TakenFirst.paths_taken {calls : List Call} (h : TakenFirst calls) :
    (∀ path, path ∈ (taken calls).map Call.path ↔ path ∈ calls.map Call.path) ∧
      ((taken calls).map Call.path).eraseDups = (calls.map Call.path).eraseDups := by
  induction calls using List.reverseRecOn with
  | nil => exact ⟨fun _ => Iff.rfl, rfl⟩
  | append_singleton calls c ih =>
    obtain ⟨same, order⟩ := ih h.of_append
    rw [taken_concat]
    cases refused : (afterCalls calls).refuses c with
    | true =>
      obtain ⟨earlier, took, here⟩ := h calls c [] rfl refused
      have old : c.path ∈ calls.map Call.path := (same _).mp (here ▸ List.mem_map_of_mem took)
      rw [if_pos rfl, List.append_nil, List.map_append, List.map_singleton, eraseDups_concat,
        if_pos old]
      refine ⟨fun path => ?_, order⟩
      rw [same, List.mem_append, List.mem_singleton]
      exact (or_iff_left_of_imp fun own => own ▸ old).symm
    | false =>
      rw [if_neg Bool.false_ne_true]
      simp only [List.map_append, List.map_singleton, List.mem_append, eraseDups_concat, same,
        order, implies_true, and_self]

/-- When no refused call makes a path known, the first call at any path is taken. -/
private theorem exists_taken_of_unchanged {calls : List Call} {path : String}
    (unchanged : ∀ before c rest, calls = before ++ c :: rest →
      (afterCalls before).refuses c = true → c.path ∈ before.map Call.path)
    (called : path ∈ calls.map Call.path) : ∃ earlier ∈ taken calls, earlier.path = path := by
  induction calls using List.reverseRecOn with
  | nil => cases called
  | append_singleton calls c ih =>
    have prior := ih fun before d rest split =>
      unchanged before d (rest ++ [c]) (by rw [split, List.append_assoc, List.cons_append])
    have known (h : path ∈ calls.map Call.path) :
        ∃ earlier ∈ taken (calls ++ [c]), earlier.path = path := by
      obtain ⟨earlier, took, here⟩ := prior h
      exact ⟨earlier, taken_concat calls c ▸ List.mem_append_left _ took, here⟩
    rw [List.map_append, List.map_singleton] at called
    rcases List.mem_append.mp called with h | h
    · exact known h
    · cases List.mem_singleton.mp h
      cases refused : (afterCalls calls).refuses c with
      | true => exact known (unchanged calls c [] rfl refused)
      | false =>
        refine ⟨c, ?_, rfl⟩
        rw [taken_concat, refused]
        exact List.mem_append_right _ (List.mem_singleton_self c)

theorem paths_make_eq_self_iff {before : List Call} {c : Call} :
    ((afterCalls before).make c).paths = (afterCalls before).paths ↔
      c.path ∈ before.map Call.path := by
  rw [make, paths_add, paths_afterCalls]
  simp only [List.mem_eraseDups]
  split <;> simp_all

/-- Whatever is refused, at each path stand the identifiers that were taken there, no refusal
changes them, and known are the paths of all calls. So calls are atomic exactly when every refused
one comes after one that was taken at its path. -/
theorem atomic_iff_takenFirst (calls : List Call) :
    (∀ path, Collects ((afterCalls calls).idsFor path) (idsAt path (taken calls))) ∧
      (∀ (d : Dependencies) c, d.refuses c = true →
        ∀ path, (d.make c).idsFor path = d.idsFor path) ∧
      (afterCalls calls).paths = (calls.map Call.path).eraseDups ∧
      (Atomic calls ↔ TakenFirst calls) := by
  refine ⟨collects_afterCalls calls, fun _ _ => idsFor_make_of_refuses, paths_afterCalls calls, ?_⟩
  constructor
  · intro atomic before c rest split refused
    refine exists_taken_of_unchanged (fun earlier d between within refusedThere => ?_) ?_
    · refine paths_make_eq_self_iff.mp (atomic.unchanged earlier d (between ++ c :: rest) ?_ ?_).1
      · rw [split, within, List.append_assoc, List.cons_append]
      · exact refusedThere
    · exact paths_make_eq_self_iff.mp (atomic.unchanged before c rest split refused).1
  · intro first
    refine ⟨?paths, collects_afterCalls calls, fun before c rest split refused => ⟨?_, ?_⟩⟩
    case paths => rw [paths_afterCalls, first.paths_taken.2]
    · obtain ⟨earlier, took, here⟩ := first before c rest split refused
      have prior : TakenFirst before := (split ▸ first).of_append
      exact paths_make_eq_self_iff.mpr ((prior.paths_taken.1 _).mp (here ▸ List.mem_map_of_mem took))
    · exact idsFor_make_of_refuses refused

/-- A list cannot be an identifier, yet the path where it was to be recorded becomes known. -/
theorem atomic_fails_unhashable :
    taken [⟨"/blog", .list [.int 1]⟩] = [] ∧
      (afterCalls [⟨"/blog", .list [.int 1]⟩]).paths = ["/blog"] ∧
      ¬ Atomic [⟨"/blog", .list [.int 1]⟩] := by
  refine ⟨rfl, rfl, fun atomic => ?_⟩
  have none : ["/blog"] = ([] : List String) := (atomic.unchanged [] _ [] rfl rfl).1
  cases none

end ContentSchema.Dependencies
