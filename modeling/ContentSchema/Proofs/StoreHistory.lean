import ContentSchema.Proofs.KeyEquality
import ContentSchema.Store
import Mathlib.Data.List.Induction
import Mathlib.Data.List.Nodup

/-! Stores over whole histories of additions, some of them refused. List and index always agree, and
of records with equal identifiers the last one stays. -/
namespace ContentSchema.Store

theorem indexed?_congr {index : List (Value × StoredRecord)}
    (keys : ∀ entry ∈ index, entry.1.isHashable = true) {i j : Value}
    (hashable : i.isHashable = true) (h : i.alike j = true) :
    indexed? index i = indexed? index j := by
  induction index with
  | nil => rfl
  | cons entry rest ih =>
    obtain ⟨key, e⟩ := entry
    have hkey := keys _ List.mem_cons_self
    have same : key.alike i = key.alike j := by
      rw [Bool.eq_iff_iff, Value.alike_iff_keyForm?_eq hkey, Value.alike_iff_keyForm?_eq hkey,
        (Value.alike_iff_keyForm?_eq hashable).mp h]
    rw [indexed?, indexed?, same, ih fun entry hentry => keys entry (List.mem_cons_of_mem _ hentry)]

theorem indexed?_indexPut {index : List (Value × StoredRecord)}
    (keys : ∀ entry ∈ index, entry.1.isHashable = true) {id : Value}
    (hashable : id.isHashable = true) (e : StoredRecord) (i : Value) :
    indexed? (indexPut index id e) i = if id.alike i then some e else indexed? index i := by
  induction index with
  | nil => rfl
  | cons entry rest ih =>
    obtain ⟨key, old⟩ := entry
    have hkey := keys _ List.mem_cons_self
    rw [indexPut]
    by_cases hid : key.alike id = true
    · rw [if_pos hid, indexed?, indexed?, Value.alike_congr hkey hid]
      split <;> rfl
    · rw [if_neg hid, indexed?, indexed?,
        ih fun entry hentry => keys entry (List.mem_cons_of_mem _ hentry)]
      by_cases hi : key.alike i = true
      · have unlike : ¬ id.alike i = true := by
          intro h
          apply hid
          rw [Value.alike_iff_keyForm?_eq hkey, (Value.alike_iff_keyForm?_eq hkey).mp hi,
            (Value.alike_iff_keyForm?_eq hashable).mp h]
        rw [if_pos hi, if_neg unlike, if_pos hi]
      · rw [if_neg hi, if_neg hi]

theorem isHashable_of_mem_indexPut {index : List (Value × StoredRecord)} {id : Value}
    {e : StoredRecord} (keys : ∀ entry ∈ index, entry.1.isHashable = true)
    (hashable : id.isHashable = true) :
    ∀ entry ∈ indexPut index id e, entry.1.isHashable = true := by
  induction index with
  | nil =>
    intro entry hentry
    cases List.mem_singleton.mp hentry
    exact hashable
  | cons first rest ih =>
    obtain ⟨key, old⟩ := first
    have hkey := keys _ List.mem_cons_self
    have others := fun entry hentry => keys entry (List.mem_cons_of_mem _ hentry)
    intro entry hentry
    rw [indexPut] at hentry
    split at hentry
    · rcases List.mem_cons.mp hentry with rfl | hrest
      · exact hkey
      · exact others entry hrest
    · rcases List.mem_cons.mp hentry with rfl | hrest
      · exact hkey
      · exact ih others entry hrest

/-- The entries without the one that has to make room. -/
def remaining (s : Store) (previous : Option StoredRecord) : List StoredRecord :=
  match previous with
  | none => s.entries
  | some p => s.entries.filter fun other => other.mark != p.mark

/-- How a computation goes on that may fail and changes a state on the way. -/
theorem run_bind {ε σ α β : Type} (m : ExceptT ε (StateM σ) α) (f : α → ExceptT ε (StateM σ) β)
    (s : σ) : (m >>= f).run.run s = match m.run.run s with
      | (.ok a, s) => (f a).run.run s
      | (.error e, s) => (.error e, s) := by
  simp only [ExceptT.run, StateT.run, bind, ExceptT.bind, ExceptT.mk, StateT.bind]
  rcases m s with ⟨_ | _, _⟩ <;> rfl

section
variable (s : Store) {id : Value} {r : Record}

private theorem run_lookUp (id : Value) :
    (lookUp id).run.run s =
      (if id.isHashable then .ok (indexed? s.index id) else .error ⟨id⟩, s) := by
  unfold lookUp
  cases id.isHashable <;> rfl

private theorem run_makeRoom (hashable : id.isHashable = true) :
    (makeRoom id).run.run s =
      (.ok (), { s with entries := s.remaining (indexed? s.index id) }) := by
  rw [makeRoom, run_bind, run_lookUp, if_pos hashable]
  cases indexed? s.index id <;> rfl

private theorem run_enter (hashable : id.isHashable = true) (e : StoredRecord) :
    (enter id e).run.run s = (.ok (), { s with index := indexPut s.index id e }) := by
  rw [enter, if_pos hashable]
  rfl

/-- A record without identifier is put at the end. -/
theorem attempt_of_null (null : (Record.id r).isNull = true) :
    s.attempt r = (.ok (), { s with
      entries := s.entries ++ [⟨s.count, r⟩]
      count := s.count + 1 }) := by
  unfold attempt insert
  rw [if_pos null]
  rfl

/-- Nothing has happened when a record is refused. -/
theorem attempt_of_unhashable (unhashable : (Record.id r).isHashable = false) :
    s.attempt r = (.error ⟨Record.id r⟩, s) := by
  have present : ¬ (Record.id r).isNull = true := by
    intro null
    cases h : Record.id r with
    | null =>
      rw [h] at unhashable
      cases unhashable
    | _ =>
      rw [h] at null
      cases null
  unfold attempt insert
  rw [if_neg present, run_bind, makeRoom, run_bind, run_lookUp, unhashable]
  rfl

/-- A record with an identifier takes the place of the one that the index has under it. -/
theorem attempt_of_key (present : (Record.id r).isNull = false)
    (hashable : (Record.id r).isHashable = true) :
    s.attempt r = (.ok (), { s with
      entries := s.remaining (indexed? s.index (Record.id r)) ++ [⟨s.count, r⟩]
      index := indexPut s.index (Record.id r) ⟨s.count, r⟩
      count := s.count + 1 }) := by
  unfold attempt insert
  rw [if_neg (Bool.not_eq_true _ ▸ present), run_bind, run_makeRoom s hashable]
  exact run_enter _ hashable _

end
/-- What list and index have to do with each other. -/
structure Consistent (s : Store) : Prop where
  working : s.fault = none
  bounded : ∀ e ∈ s.entries, e.mark < s.count
  distinct : (s.entries.map StoredRecord.mark).Nodup
  keys : ∀ entry ∈ s.index, entry.1.isHashable = true
  listed : ∀ i e, indexed? s.index i = some e →
    e ∈ s.entries ∧ (Record.id e.record).isNull = false ∧ (Record.id e.record).alike i = true
  keyed : ∀ e ∈ s.entries, (Record.id e.record).isNull = false →
    (Record.id e.record).isHashable = true ∧ indexed? s.index (Record.id e.record) = some e

theorem consistent_empty : empty.Consistent where
  working := rfl
  bounded := nofun
  distinct := List.nodup_nil
  keys := nofun
  listed := nofun
  keyed := nofun

namespace Consistent
variable {s : Store} {e : StoredRecord} {i : Value}

theorem eq_of_mark_eq {f : StoredRecord} (h : s.Consistent) (he : e ∈ s.entries)
    (hf : f ∈ s.entries) (same : e.mark = f.mark) : e = f :=
  List.inj_on_of_nodup_map h.distinct he hf same

/-- The index leads to the listed record whose identifier is alike. -/
theorem indexed?_eq_some_iff (h : s.Consistent) (present : i.isNull = false) :
    indexed? s.index i = some e ↔ e ∈ s.entries ∧ (Record.id e.record).alike i = true := by
  constructor
  · intro found
    obtain ⟨he, _, alike⟩ := h.listed i e found
    exact ⟨he, alike⟩
  · rintro ⟨he, alike⟩
    obtain ⟨hashable, found⟩ := h.keyed e he ((Value.isNull_eq_of_alike alike).trans present)
    rw [← indexed?_congr h.keys hashable alike, found]

theorem remaining_eq_filter (h : s.Consistent) (present : i.isNull = false) :
    s.remaining (indexed? s.index i) =
      s.entries.filter fun e => !(Record.id e.record).alike i := by
  cases hp : indexed? s.index i with
  | none =>
    refine (List.filter_eq_self.mpr fun e he => ?_).symm
    rw [Bool.not_eq_true', Bool.eq_false_iff]
    intro alike
    cases hp.symm.trans ((h.indexed?_eq_some_iff present).mpr ⟨he, alike⟩)
  | some p =>
    apply List.filter_congr
    intro e he
    obtain ⟨hmem, alike⟩ := (h.indexed?_eq_some_iff present).mp hp
    rw [Bool.eq_iff_iff, bne_iff_ne, Bool.not_eq_true', Bool.eq_false_iff, not_iff_not]
    constructor
    · intro same
      rw [h.eq_of_mark_eq he hmem same]
      exact alike
    · intro ealike
      rw [(h.indexed?_eq_some_iff present).mpr ⟨he, ealike⟩] at hp
      cases hp
      rfl

/-- A new record has a mark of its own. -/
private theorem marks_append (h : s.Consistent) {kept : List StoredRecord}
    (among : kept.Sublist s.entries) (r : Record) :
    (∀ e ∈ kept ++ [(⟨s.count, r⟩ : StoredRecord)], e.mark < s.count + 1) ∧
      ((kept ++ [(⟨s.count, r⟩ : StoredRecord)]).map StoredRecord.mark).Nodup := by
  have old (e : StoredRecord) (he : e ∈ kept) : e.mark < s.count := h.bounded e (among.subset he)
  constructor
  · intro e he
    rcases List.mem_append.mp he with he | he
    · exact Nat.lt_succ_of_lt (old e he)
    · cases List.mem_singleton.mp he
      exact Nat.lt_succ_self _
  · rw [List.map_append, List.nodup_append]
    refine ⟨h.distinct.sublist (among.map _), List.nodup_singleton _, ?_⟩
    intro mark hmark new hnew
    obtain ⟨e, he, rfl⟩ := List.mem_map.mp hmark
    cases List.mem_singleton.mp hnew
    exact Nat.ne_of_lt (old e he)

private theorem of_null {r : Record} (h : s.Consistent) (null : (Record.id r).isNull = true) :
    (s.attempt r).2.Consistent := by
  obtain ⟨bounded, distinct⟩ := h.marks_append (List.Sublist.refl _) r
  rw [attempt_of_null s null]
  refine ⟨h.working, bounded, distinct, h.keys, ?listed, ?keyed⟩
  case listed =>
    intro i e found
    obtain ⟨he, others⟩ := h.listed i e found
    exact ⟨List.mem_append_left _ he, others⟩
  case keyed =>
    intro e he present
    rcases List.mem_append.mp he with he | he
    · exact h.keyed e he present
    · cases List.mem_singleton.mp he
      cases null.symm.trans present

private theorem of_key {r : Record} (h : s.Consistent) (present : (Record.id r).isNull = false)
    (hashable : (Record.id r).isHashable = true) : (s.attempt r).2.Consistent := by
  obtain ⟨bounded, distinct⟩ := h.marks_append
    (List.filter_sublist (p := fun e => !(Record.id e.record).alike (Record.id r))) r
  have lookUp := indexed?_indexPut h.keys hashable ⟨s.count, r⟩
  rw [attempt_of_key s present hashable, h.remaining_eq_filter present]
  refine ⟨h.working, bounded, distinct, isHashable_of_mem_indexPut h.keys hashable, ?listed, ?keyed⟩
  case listed =>
    intro i e found
    rw [lookUp] at found
    split at found
    · rename_i alike
      cases found
      exact ⟨List.mem_append_right _ (List.mem_singleton_self _), present, alike⟩
    · rename_i unlike
      obtain ⟨he, hpresent, alike⟩ := h.listed i e found
      refine ⟨List.mem_append_left _ (List.mem_filter.mpr ⟨he, ?_⟩), hpresent, alike⟩
      rw [Bool.not_eq_true', Bool.eq_false_iff]
      intro taken
      have ehashable := (h.keyed e he hpresent).1
      rw [← Value.alike_congr ehashable taken, alike] at unlike
      exact unlike rfl
  case keyed =>
    intro e he hpresent
    rw [lookUp]
    rcases List.mem_append.mp he with he | he
    · obtain ⟨he, other⟩ := List.mem_filter.mp he
      obtain ⟨ehashable, found⟩ := h.keyed e he hpresent
      refine ⟨ehashable, ?_⟩
      have unlike : ¬ (Record.id r).alike (Record.id e.record) = true := by
        intro alike
        rw [Value.alike_symm hashable alike] at other
        cases other
      rw [if_neg unlike, found]
    · cases List.mem_singleton.mp he
      exact ⟨hashable, if_pos (Value.alike_refl hashable)⟩

/-- No addition brings list and index apart, refused or not. -/
theorem attempt (h : s.Consistent) (r : Record) : (s.attempt r).2.Consistent := by
  cases null : (Record.id r).isNull with
  | true => exact h.of_null null
  | false =>
    cases hashable : (Record.id r).isHashable with
    | true => exact h.of_key null hashable
    | false =>
      rw [attempt_of_unhashable s hashable]
      exact h

end Consistent

/-- Whether a record makes room for a later one. -/
def supersededBy (r later : Record) : Bool :=
  !(Record.id r).isNull && (Record.id r).same (Record.id later)

/-- The records that make room for none of those after them. -/
def latest : List Record → List Record
  | [] => []
  | r :: rest => if rest.any (supersededBy r) then latest rest else r :: latest rest

theorem latest_append (records : List Record) (r : Record) :
    latest (records ++ [r]) = (latest records).filter (fun x => !supersededBy x r) ++ [r] := by
  induction records with
  | nil => rfl
  | cons x records ih =>
    rw [List.cons_append, latest, latest, List.any_append, List.any_cons, List.any_nil,
      Bool.or_false, ih]
    cases records.any (supersededBy x) with
    | true => rfl
    | false =>
      cases hx : supersededBy x r <;> simp [hx]

theorem latest_sublist (records : List Record) : (latest records).Sublist records := by
  induction records with
  | nil => exact List.Sublist.refl _
  | cons r records ih =>
    rw [latest]
    split
    · exact ih.cons _
    · exact ih.cons_cons _

theorem pairwise_latest (records : List Record) :
    (latest records).Pairwise fun a b => supersededBy a b = false := by
  induction records with
  | nil => exact List.Pairwise.nil
  | cons r records ih =>
    rw [latest]
    split
    · exact ih
    · rename_i stays
      refine List.Pairwise.cons (fun later hlater => ?_) ih
      rw [List.any_eq_true] at stays
      rw [Bool.eq_false_iff]
      exact fun gone => stays ⟨later, (latest_sublist records).subset hlater, gone⟩

/-- A store after some additions, refused or not. -/
def afterAdding (records : List Record) : Store :=
  records.foldl (fun s r => (s.attempt r).2) empty

/-- Whether a record is not refused. -/
def takes (s : Store) (r : Record) : Bool :=
  match (s.attempt r).1 with
  | .ok () => true
  | .error _ => false

/-- The records that a store takes of those that it is given one after the other. -/
def takenFrom : Store → List Record → List Record
  | _, [] => []
  | s, r :: rest =>
    if s.takes r then r :: takenFrom (s.attempt r).2 rest else takenFrom (s.attempt r).2 rest

/-- The records that a fresh store takes. -/
def taken (records : List Record) : List Record := takenFrom empty records

theorem takes_eq_isHashable (s : Store) (r : Record) : s.takes r = (Record.id r).isHashable := by
  unfold takes
  cases null : (Record.id r).isNull with
  | true =>
    cases h : Record.id r with
    | null =>
      rw [attempt_of_null s null]
      rfl
    | _ =>
      rw [h] at null
      cases null
  | false =>
    cases hashable : (Record.id r).isHashable with
    | true => rw [attempt_of_key s null hashable]
    | false => rw [attempt_of_unhashable s hashable]

/-- A refused record leaves everything as it was. -/
theorem attempt_eq_self (s : Store) {r : Record} (refused : s.takes r = false) :
    (s.attempt r).2 = s := by
  rw [takes_eq_isHashable] at refused
  rw [attempt_of_unhashable s refused]

/-- What a record that is taken leaves behind. -/
theorem records_attempt {s : Store} (h : s.Consistent)
    (defined : ∀ x ∈ s.records, (Record.id x).isNaN = false) {r : Record}
    (took : s.takes r = true) :
    (s.attempt r).2.records = s.records.filter (fun x => !supersededBy x r) ++ [r] := by
  have alike (x : Record) (hx : x ∈ s.records) :
      supersededBy x r = (!(Record.id x).isNull && (Record.id x).alike (Record.id r)) := by
    rw [supersededBy, Value.alike_eq_same (defined x hx)]
  cases null : (Record.id r).isNull with
  | true =>
    have stays : s.records.filter (fun x => !supersededBy x r) = s.records := by
      refine List.filter_eq_self.mpr fun x hx => ?_
      rw [alike x hx]
      cases unlike : (Record.id x).alike (Record.id r) with
      | true => simp [Value.isNull_eq_of_alike unlike, null]
      | false => simp
    rw [attempt_of_null s null, stays, records, List.map_append]
    rfl
  | false =>
    have hashable := (takes_eq_isHashable s r).symm.trans took
    have gone : s.records.filter (fun x => !supersededBy x r) =
        s.records.filter fun x => !(Record.id x).alike (Record.id r) := by
      refine List.filter_congr fun x hx => ?_
      rw [alike x hx]
      cases ealike : (Record.id x).alike (Record.id r) with
      | true => simp [Value.isNull_eq_of_alike ealike, null]
      | false => simp
    rw [gone, attempt_of_key s null hashable, h.remaining_eq_filter null, records, records,
      List.map_append, List.filter_map]
    rfl

private theorem takenFrom_append (s : Store) (a b : List Record) :
    takenFrom s (a ++ b) =
      takenFrom s a ++ takenFrom (a.foldl (fun s r => (s.attempt r).2) s) b := by
  induction a generalizing s with
  | nil => rfl
  | cons r a ih =>
    rw [List.cons_append, takenFrom, takenFrom, List.foldl_cons, ih]
    split <;> rfl

theorem taken_append (records : List Record) (r : Record) :
    taken (records ++ [r]) =
      taken records ++ if (afterAdding records).takes r then [r] else [] := by
  rw [taken, takenFrom_append]
  rfl

theorem mem_of_mem_taken {records : List Record} {r : Record} (h : r ∈ taken records) :
    r ∈ records := by
  induction records using List.reverseRecOn with
  | nil => cases h
  | append_singleton records last ih =>
    rw [taken_append] at h
    rcases List.mem_append.mp h with h | h
    · exact List.mem_append_left _ (ih h)
    · split at h
      · exact List.mem_append_right _ h
      · cases h

/-- List and index agree after any additions. -/
theorem consistent_additions (records : List Record) : (afterAdding records).Consistent := by
  induction records using List.reverseRecOn with
  | nil => exact consistent_empty
  | append_singleton records r ih =>
    rw [afterAdding, List.foldl_append]
    exact ih.attempt r

/-- After any additions, list and index are consistent and the list holds the latest records. -/
theorem consistent_afterAdding {records : List Record}
    (defined : ∀ r ∈ records, (Record.id r).isNaN = false) :
    (afterAdding records).Consistent ∧ (afterAdding records).records = latest (taken records) := by
  induction records using List.reverseRecOn with
  | nil => exact ⟨consistent_empty, rfl⟩
  | append_singleton records r ih =>
    obtain ⟨consistent, kept⟩ := ih fun x hx => defined x (List.mem_append_left _ hx)
    have step : afterAdding (records ++ [r]) = ((afterAdding records).attempt r).2 := by
      rw [afterAdding, List.foldl_append]
      rfl
    rw [step, taken_append]
    refine ⟨consistent.attempt r, ?_⟩
    split
    · rename_i took
      have known (x : Record) (hx : x ∈ (afterAdding records).records) :
          (Record.id x).isNaN = false := by
        rw [kept] at hx
        exact defined x (List.mem_append_left _ (mem_of_mem_taken ((latest_sublist _).subset hx)))
      rw [records_attempt consistent known took, latest_append, kept]
    · rename_i refused
      rw [attempt_eq_self _ (Bool.eq_false_iff.mpr refused), kept, List.append_nil]

/-- A store holds the latest of the records that it took, finds each by its identifier, and refuses
a record exactly when its identifier cannot be a key. -/
theorem afterAdding_holds_latest (records : List Record)
    (defined : ∀ r ∈ records, (Record.id r).isNaN = false) :
    (afterAdding records).nodes = .ok (latest (taken records)) ∧
      (latest (taken records)).Pairwise (fun a b =>
        (Record.id a).isNull = false → (Record.id a).same (Record.id b) = false) ∧
      (∀ i : Value, i.isNull = false → i.isHashable = true →
        ∃ found, (afterAdding records).node? i = .ok found ∧
          ∀ r, found = some r ↔ r ∈ latest (taken records) ∧ (Record.id r).same i = true) ∧
      (afterAdding records).size = (latest (taken records)).length ∧
      (∀ type, (afterAdding records).nodesOfType type =
        (latest (taken records)).filter (isOfType type)) ∧
      ∀ r, ((∃ e, ((afterAdding records).attempt r).1 = .error e) ↔
          (Record.id r).isHashable = false) ∧
        ∀ e, ((afterAdding records).attempt r).1 = .error e →
          ((afterAdding records).attempt r).2 = afterAdding records := by
  obtain ⟨consistent, kept⟩ := consistent_afterAdding defined
  refine ⟨?nodes, ?apart, ?found, ?size, ?ofType, ?refusal⟩
  case nodes => rw [nodes, consistent.working, kept]
  case apart =>
    refine (pairwise_latest _).imp fun {a b} stays present => ?_
    rw [supersededBy, present] at stays
    exact stays
  case found =>
    intro i present hashable
    refine ⟨(indexed? (afterAdding records).index i).map StoredRecord.record, ?_, fun r => ?_⟩
    · rw [node?, consistent.working, if_pos hashable]
    · have alike (e : StoredRecord) (he : e ∈ (afterAdding records).entries) :
          (Record.id e.record).alike i = (Record.id e.record).same i := by
        apply Value.alike_eq_same
        have hlatest : e.record ∈ latest (taken records) := kept ▸ List.mem_map_of_mem he
        exact defined _ (mem_of_mem_taken ((latest_sublist _).subset hlatest))
      rw [← kept, Option.map_eq_some_iff, Store.records]
      constructor
      · rintro ⟨e, he, rfl⟩
        obtain ⟨hmem, ealike⟩ := (consistent.indexed?_eq_some_iff present).mp he
        exact ⟨List.mem_map_of_mem hmem, alike e hmem ▸ ealike⟩
      · rintro ⟨hr, same⟩
        obtain ⟨e, hmem, rfl⟩ := List.mem_map.mp hr
        have found := (consistent.indexed?_eq_some_iff present).mpr ⟨hmem, (alike e hmem).trans same⟩
        exact ⟨e, found, rfl⟩
  case size => rw [size, ← kept, Store.records, List.length_map]
  case ofType =>
    intro type
    rw [nodesOfType, kept]
  case refusal =>
    intro r
    have outcome := takes_eq_isHashable (afterAdding records) r
    cases he : ((afterAdding records).attempt r).1 with
    | ok =>
      rw [takes, he] at outcome
      refine ⟨⟨nofun, fun unhashable => ?_⟩, nofun⟩
      cases outcome.trans unhashable
    | error e =>
      have refused : (afterAdding records).takes r = false := by rw [takes, he]
      exact ⟨⟨fun _ => outcome.symm.trans refused, fun _ => ⟨e, rfl⟩⟩,
        fun _ _ => attempt_eq_self _ refused⟩

/-- The numbers 1 and 1.0 and the truth value are one identifier, and a list is none. -/
theorem afterAdding_holds_latest_equal_numbers :
    (∀ r ∈ [[("id", .int 1)], [("id", .list [])], [("type", .text "T")], [("id", .bool true)],
        [("id", .float (.finite false 1 0)), ("type", .text "T")]],
      (Record.id r).isNaN = false) ∧
    (afterAdding [[("id", .int 1)], [("id", .list [])], [("type", .text "T")], [("id", .bool true)],
        [("id", .float (.finite false 1 0)), ("type", .text "T")]]).nodes =
      .ok [[("type", .text "T")], [("id", .float (.finite false 1 0)), ("type", .text "T")]] := by
  have defined : ∀ r ∈ [[("id", .int 1)], [("id", .list [])], [("type", .text "T")],
      [("id", .bool true)], [("id", .float (.finite false 1 0)), ("type", .text "T")]],
      (Record.id r).isNaN = false := by simp [Record.id, Record.get, Dictionary.get?, Value.isNaN]
  refine ⟨defined, (afterAdding_holds_latest _ defined).1.trans ?_⟩
  rfl

end ContentSchema.Store
