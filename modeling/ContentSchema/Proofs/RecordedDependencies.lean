import ContentSchema.Proofs.DictionaryEntries
import ContentSchema.Proofs.StoredLinks

/-! What is recorded while links are read, over whole sequences of readings. At each path stand
exactly the identifiers of the records that were given there. -/
namespace ContentSchema

theorem Store.Consistent.id_eq_of_alike {s : Store} (h : s.Consistent) {a b : Record}
    (ha : a ∈ s.records) (hb : b ∈ s.records) (present : (Record.id a).isNull = false)
    (alike : (Record.id a).alike (Record.id b) = true) : Record.id a = Record.id b := by
  obtain ⟨e, he, rfl⟩ := List.mem_map.mp ha
  obtain ⟨f, hf, rfl⟩ := List.mem_map.mp hb
  have other := (Value.isNull_eq_of_alike alike).symm.trans present
  have found := (h.indexed?_eq_some_iff other).mpr ⟨he, alike⟩
  rw [(h.keyed f hf other).2] at found
  cases found
  rfl

namespace Dependencies

theorem idsFor_addPath (d : Dependencies) (path q : String) :
    (d.addPath path).idsFor q = d.idsFor q := by
  unfold addPath idsFor
  rw [Dictionary.get?_putNew]
  cases Dictionary.get? d q with
  | some ids => rfl
  | none => by_cases h : path = q <;> simp [h]

theorem idsFor_add (d : Dependencies) (path : String) {id : Value} (hashable : id.isHashable = true)
    (q : String) :
    (d.add path id).2.idsFor q =
      if path = q ∧ (d.idsFor path).any id.alike = false then d.idsFor q ++ [id]
      else d.idsFor q := by
  unfold add
  simp only [hashable, if_true, idsFor_addPath]
  cases known : (d.idsFor path).any id.alike with
  | true => simp [idsFor_addPath]
  | false =>
    simp only [Bool.false_eq_true, if_false, and_true]
    by_cases h : path = q
    · subst h
      simp [idsFor, Dictionary.get?_put]
    · rw [if_neg h]
      conv => lhs; unfold idsFor
      rw [Dictionary.get?_put, if_neg h]
      exact idsFor_addPath d path q

/-- A path becomes known when something is to be recorded there for the first time, refused or
not. -/
theorem paths_add (d : Dependencies) (path : String) (id : Value) :
    (d.add path id).2.paths = if path ∈ d.paths then d.paths else d.paths ++ [path] := by
  have known : (d.addPath path).paths = if path ∈ d.paths then d.paths else d.paths ++ [path] := by
    unfold addPath paths
    simp only [Dictionary.keys_putNew, Dictionary.has_iff]
  have present : Dictionary.has (d.addPath path) path = true := by
    rw [Dictionary.has_iff]
    change path ∈ (d.addPath path).paths
    rw [known]
    split
    · assumption
    · exact List.mem_append_right _ (List.mem_singleton_self path)
  have kept (ids : List Value) :
      paths (Dictionary.put (d.addPath path) path ids) = (d.addPath path).paths := by
    rw [paths, Dictionary.keys_put, if_pos present]
    rfl
  unfold add
  simp only
  split
  · split
    · exact known
    · exact (kept _).trans known
  · exact known

theorem mem_paths_of_mem_paths_add {d : Dependencies} {path q : String} {id : Value}
    (h : q ∈ (d.add path id).2.paths) : q = path ∨ q ∈ d.paths := by
  rw [paths_add] at h
  split at h
  · exact Or.inr h
  · simpa [or_comm] using h

/-- What stands in the dependencies once some records of a store were given, each at its path. -/
structure Lists (s : Store) (d : Dependencies) (given : List (String × Record)) : Prop where
  stored : ∀ entry ∈ given, entry.2 ∈ s.records
  mem_iff : ∀ path id, id ∈ d.idsFor path ↔
    ∃ r, (path, r) ∈ given ∧ (Record.id r).isNull = false ∧ Record.id r = id
  /-- No identifier stands twice at a path. -/
  apart : ∀ path, (d.idsFor path).Pairwise fun a b => a.alike b = false
  known : ∀ path ∈ d.paths, d.idsFor path ≠ []

theorem lists_nil (s : Store) : Lists s [] [] where
  stored := nofun
  mem_iff _ _ := ⟨nofun, fun ⟨_, h, _⟩ => nomatch h⟩
  apart _ := List.Pairwise.nil
  known := nofun

namespace Lists
variable {s : Store} {d : Dependencies} {given : List (String × Record)} (h : Lists s d given)
  (consistent : s.Consistent)
include h consistent

theorem isHashable_of_mem {path : String} {id : Value} (hid : id ∈ d.idsFor path) :
    id.isHashable = true := by
  obtain ⟨r, hr, _, rfl⟩ := (h.mem_iff path id).mp hid
  exact consistent.isHashable_id (h.stored _ hr)

theorem nodup (path : String) : (d.idsFor path).Nodup := by
  refine (h.apart path).imp_of_mem fun {i j} hi _ unlike => ?_
  rintro rfl
  rw [Value.alike_refl (h.isHashable_of_mem consistent hi)] at unlike
  cases unlike

section
variable {r : Record} (hr : r ∈ s.records)
include hr

omit consistent in
private theorem stored_append (path : String) :
    ∀ entry ∈ given ++ [(path, r)], entry.2 ∈ s.records := by
  intro entry hentry
  rcases List.mem_append.mp hentry with hentry | hentry
  · exact h.stored entry hentry
  · cases List.mem_singleton.mp hentry
    exact hr

/-- An identifier that is alike to a recorded one is the recorded one, for it has one record. -/
private theorem mem_of_alike (present : (Record.id r).isNull = false) {path : String}
    (alike : (d.idsFor path).any (Record.id r).alike = true) : Record.id r ∈ d.idsFor path := by
  obtain ⟨id, hid, alike⟩ := List.any_eq_true.mp alike
  obtain ⟨other, hother, _, rfl⟩ := (h.mem_iff path id).mp hid
  rw [consistent.id_eq_of_alike hr (h.stored _ hother) present alike]
  exact hid

private theorem add (present : (Record.id r).isNull = false) (path : String) :
    Lists s (d.add path (Record.id r)).2 (given ++ [(path, r)]) := by
  have ids := d.idsFor_add path (consistent.isHashable_id hr)
  have mem (q : String) (id : Value) : id ∈ (d.add path (Record.id r)).2.idsFor q ↔
      id ∈ d.idsFor q ∨ path = q ∧ Record.id r = id := by
    rw [ids]
    split
    · rename_i new
      rw [List.mem_append, List.mem_singleton, eq_comm (a := id)]
      exact or_congr_right (and_iff_right new.1).symm
    · rename_i old
      refine (or_iff_left_of_imp ?_).symm
      rintro ⟨rfl, rfl⟩
      rw [and_iff_right rfl, Bool.not_eq_false] at old
      exact h.mem_of_alike consistent hr present old
  refine ⟨h.stored_append hr path, ?mem_iff, ?apart, ?known⟩
  case mem_iff =>
    intro q id
    rw [mem, h.mem_iff]
    constructor
    · rintro (⟨other, hother, rest⟩ | ⟨rfl, rfl⟩)
      · exact ⟨other, List.mem_append_left _ hother, rest⟩
      · exact ⟨r, List.mem_append_right _ (List.mem_singleton_self _), present, rfl⟩
    · rintro ⟨other, hother, rest⟩
      rcases List.mem_append.mp hother with hother | hother
      · exact Or.inl ⟨other, hother, rest⟩
      · cases List.mem_singleton.mp hother
        exact Or.inr ⟨rfl, rest.2⟩
  case apart =>
    intro q
    rw [ids]
    split
    · rename_i new
      refine List.pairwise_append.mpr ⟨h.apart q, List.pairwise_singleton _ _, ?_⟩
      intro old hold id hid
      cases List.mem_singleton.mp hid
      obtain ⟨rfl, unlike⟩ := new
      rw [List.any_eq_false] at unlike
      rw [Bool.eq_false_iff]
      intro alike
      exact unlike _ hold (Value.alike_symm (h.isHashable_of_mem consistent hold) alike)
    · exact h.apart q
  case known =>
    intro q hq
    rcases mem_paths_of_mem_paths_add hq with rfl | hq
    · exact List.ne_nil_of_mem ((mem q _).mpr (Or.inr ⟨rfl, rfl⟩))
    · obtain ⟨id, hid⟩ := List.exists_mem_of_ne_nil _ (h.known q hq)
      exact List.ne_nil_of_mem ((mem q id).mpr (Or.inl hid))

/-- One record more is given, at a path or at none. -/
theorem note (path : Option String) :
    Lists s (Query.note path d r) (given ++ path.toList.map fun path => (path, r)) := by
  unfold Query.note
  cases path with
  | none =>
    rw [Option.toList_none, List.map_nil, List.append_nil]
    exact h
  | some path =>
    rw [Option.toList_some, List.map_singleton]
    cases null : (Record.id r).isNull with
    | false => exact h.add consistent hr null path
    | true =>
      refine ⟨h.stored_append hr path, fun q id => ?_, h.apart, h.known⟩
      refine (h.mem_iff q id).trans ?_
      constructor
      · rintro ⟨other, hother, rest⟩
        exact ⟨other, List.mem_append_left _ hother, rest⟩
      · rintro ⟨other, hother, rest⟩
        rcases List.mem_append.mp hother with hother | hother
        · exact ⟨other, hother, rest⟩
        · cases List.mem_singleton.mp hother
          cases null.symm.trans rest.1

end

/-- All records that one reading gives. -/
theorem notes (path : Option String) {rs : List Record} (hrs : ∀ r ∈ rs, r ∈ s.records) :
    Lists s (rs.foldl (Query.note path) d)
      (given ++ rs.flatMap fun r => path.toList.map fun path => (path, r)) := by
  induction rs generalizing d given with
  | nil =>
    rw [List.flatMap_nil, List.append_nil]
    exact h
  | cons r rs ih =>
    obtain ⟨first, others⟩ := List.forall_mem_cons.mp hrs
    rw [List.foldl_cons, List.flatMap_cons, ← List.append_assoc]
    exact ih (h.note consistent first path) others

end Lists
end Dependencies

/-- A reading of a field that is a link. -/
structure LinkCall where
  resolver : Resolver
  isLink : resolver.isLink = true
  source : Record
  args : Value
  path : Option String

/-- The records that a reading gives over a store, each at the path of the reading. -/
def LinkCall.given (s : Store) (c : LinkCall) : List (String × Record) :=
  (Query.returned (s.read c.source c.resolver)).flatMap fun r =>
    c.path.toList.map fun path => (path, r)

theorem LinkCall.mem_given {s : Store} {c : LinkCall} {path : String} {r : Record} :
    (path, r) ∈ c.given s ↔ c.path = some path ∧ r ∈ Query.returned (s.read c.source c.resolver) := by
  simp only [given, List.mem_flatMap, List.mem_map, Option.mem_toList, Prod.mk.injEq]
  constructor
  · rintro ⟨_, hr, _, hpath, rfl, rfl⟩
    exact ⟨hpath, hr⟩
  · rintro ⟨hpath, hr⟩
    exact ⟨r, hr, path, hpath, rfl, rfl⟩

namespace Build

def call (b : Build) (c : LinkCall) : Except ResolveError Value × Build :=
  b.resolve c.resolver c.source c.args c.path

/-- Readings one after the other, some of which may fail. -/
def callAll (b : Build) : List LinkCall → List (Except ResolveError Value) × Build
  | [] => ([], b)
  | c :: rest =>
    let (outcome, b) := b.call c
    let (outcomes, b) := b.callAll rest
    (outcome :: outcomes, b)

section
variable {b : Build} (consistent : b.site.store.Consistent)
include consistent

theorem call_eq (c : LinkCall) :
    b.call c = (b.site.store.read c.source c.resolver,
      b.noting c.path (Query.returned (b.site.store.read c.source c.resolver))) :=
  resolve_link consistent c.isLink c.source c.args c.path

/-- What a sequence of readings gives and leaves recorded, after some records were given. -/
theorem lists_callAll (calls : List LinkCall) {given : List (String × Record)}
    (lists : Dependencies.Lists b.site.store b.dependencies given) :
    (b.callAll calls).1 = calls.map (fun c => b.site.store.read c.source c.resolver) ∧
      Dependencies.Lists b.site.store (b.callAll calls).2.dependencies
        (given ++ calls.flatMap (LinkCall.given b.site.store)) := by
  induction calls generalizing b given with
  | nil =>
    rw [List.flatMap_nil, List.append_nil]
    exact ⟨rfl, lists⟩
  | cons c rest ih =>
    have stored (r : Record) (hr : r ∈ Query.returned (b.site.store.read c.source c.resolver)) :
        r ∈ b.site.store.records := consistent.mem_of_read hr
    have later := ih (b := b.noting c.path _) consistent (lists.notes consistent c.path stored)
    rw [callAll, call_eq consistent, List.map_cons, List.flatMap_cons, ← List.append_assoc]
    exact ⟨congrArg _ later.1, later.2⟩

end

/-- After any readings of links over added records, what is recorded at a path are the identifiers
of the records that were given there, and nothing else. So neither the order of the readings nor
repetition matters, and no reading depends on those before it. -/
theorem idsFor_callAll (b : Build) (records : List Record) (calls : List LinkCall) :
    let fresh := { b with site.store := .afterAdding records, dependencies := [] }
    let after := (fresh.callAll calls).2.dependencies
    (fresh.callAll calls).1 = calls.map (fun c => (fresh.call c).1) ∧
      (∀ path id, id ∈ after.idsFor path ↔ ∃ c ∈ calls, c.path = some path ∧
        ∃ r ∈ Query.returned (fresh.call c).1,
          (Record.id r).isNull = false ∧ Record.id r = id) ∧
      (∀ path, (after.idsFor path).Pairwise fun i j => i.alike j = false) ∧
      (∀ path ∈ after.paths, after.idsFor path ≠ []) ∧
      (∀ c : LinkCall, c.path = none → ∀ d : Dependencies,
        (({ fresh with dependencies := d } : Build).call c).2.dependencies = d) ∧
      ∀ others : List LinkCall, (∀ c, c ∈ others ↔ c ∈ calls) →
        ∀ path, ((fresh.callAll others).2.dependencies.idsFor path).Perm (after.idsFor path) := by
  intro fresh after
  have consistent : fresh.site.store.Consistent := Store.consistent_additions records
  have each (c : LinkCall) : (fresh.call c).1 = fresh.site.store.read c.source c.resolver :=
    congrArg Prod.fst (call_eq consistent c)
  have run (calls : List LinkCall) :=
    lists_callAll consistent calls (Dependencies.lists_nil fresh.site.store)
  have mem (calls : List LinkCall) (path : String) (id : Value) :
      id ∈ (fresh.callAll calls).2.dependencies.idsFor path ↔ ∃ c ∈ calls, c.path = some path ∧
        ∃ r ∈ Query.returned (fresh.call c).1,
          (Record.id r).isNull = false ∧ Record.id r = id := by
    rw [(run calls).2.mem_iff]
    simp only [List.nil_append, List.mem_flatMap, LinkCall.mem_given, each]
    constructor
    · rintro ⟨r, ⟨c, hc, hpath, hr⟩, rest⟩
      exact ⟨c, hc, hpath, r, hr, rest⟩
    · rintro ⟨c, hc, hpath, r, hr, rest⟩
      exact ⟨r, ⟨c, hc, hpath, hr⟩, rest⟩
  refine ⟨?outcomes, mem calls, (run calls).2.apart, (run calls).2.known, ?pathless, ?order⟩
  case outcomes =>
    simp only [each]
    exact (run calls).1
  case pathless =>
    intro c hpath d
    rw [call_eq (b := { fresh with dependencies := d }) consistent, hpath]
    unfold noting
    induction Query.returned (fresh.site.store.read c.source c.resolver) with
    | nil => rfl
    | cons r rs ih => exact ih
  case order =>
    intro others same path
    have left := (run others).2.nodup consistent path
    have right := (run calls).2.nodup consistent path
    refine (List.perm_ext_iff_of_nodup left right).mpr fun id => ?_
    rw [mem others, mem calls]
    simp only [same]

end Build
end ContentSchema
