import ContentSchema.Proofs.LinkReading

/-! Links over stores that were filled by additions. What the index finds is what a scan of the
records finds, and a link that names a type gives what a link of any type gives, less the records
of other types. -/
namespace ContentSchema

namespace Store
variable {s : Store}

theorem mem_of_typed? {type : String} {id : Value} {r : Record} (h : s.typed? type id = some r) :
    r ∈ s.records ∧ isOfType type r = true := by
  have holds := List.find?_some h
  rw [Bool.and_eq_true] at holds
  exact ⟨List.mem_of_find?_eq_some h, holds.1⟩

theorem mem_of_fileAt? {source r : Record} {relative : String}
    (h : s.fileAt? source relative = .ok (some r)) :
    r ∈ s.records ∧ isOfType fileType r = true := by
  unfold fileAt? at h
  split at h
  · cases h
  · split at h
    · cases h
    · split at h
      · have found := Except.ok.inj h
        have holds := List.find?_some found
        rw [Bool.and_eq_true] at holds
        exact ⟨List.mem_of_find?_eq_some found, holds.1⟩
      · cases h

theorem returned_read_file {source r : Record} {key : String}
    (h : r ∈ Query.returned (s.read source (.file key))) :
    r ∈ s.records ∧ isOfType fileType r = true := by
  rw [read] at h
  split at h
  · rename_i relative _
    split at h
    · cases h
    · cases found : s.fileAt? source relative with
      | error e =>
        rw [found] at h
        cases h
      | ok file =>
        rw [found] at h
        change r ∈ (Value.ofRecord? file).recordsIn at h
        rw [Value.recordsIn_ofRecord?, Option.mem_toList] at h
        exact mem_of_fileAt? (h ▸ found)
  · cases h

namespace Consistent

theorem isHashable_id {r : Record} (h : s.Consistent) (hr : r ∈ s.records) :
    (Record.id r).isHashable = true := by
  obtain ⟨e, he, rfl⟩ := List.mem_map.mp hr
  cases null : (Record.id e.record).isNull with
  | false => exact (h.keyed e he null).1
  | true =>
    cases hid : Record.id e.record with
    | null => rfl
    | _ =>
      rw [hid] at null
      cases null

theorem mem_of_pointed? {linkedField : Option String} {v : Value} {r : Record} (h : s.Consistent)
    (found : s.pointed? linkedField v = some r) : r ∈ s.records := by
  unfold pointed? linked? node? nodes at found
  rw [h.working] at found
  split at found
  · rename_i o heq
    subst found
    split at heq
    · have heq := Except.ok.inj heq
      split at heq
      · obtain ⟨e, he, rfl⟩ := Option.map_eq_some_iff.mp heq
        exact List.mem_map_of_mem (h.listed v e he).1
      · cases heq
    · exact List.mem_of_find?_eq_some (Except.ok.inj heq)
  · cases found

/-- A link gives records of the store. -/
theorem mem_of_read {source r : Record} {resolver : Resolver} (h : s.Consistent)
    (given : r ∈ Query.returned (s.read source resolver)) : r ∈ s.records := by
  cases resolver with
  | date fieldName => cases given
  | mapping key type isList =>
    rw [read, Query.returned_followed] at given
    obtain ⟨v, _, found⟩ := List.mem_filterMap.mp given
    exact (mem_of_typed? found).1
  | node key linkedField isList =>
    rw [read, Query.returned_followed] at given
    obtain ⟨v, _, found⟩ := List.mem_filterMap.mp given
    exact h.mem_of_pointed? found
  | file key => exact (returned_read_file given).1

end Consistent
end Store

namespace Build

/-- A build once records were given at a path. -/
def noting (b : Build) (path : Option String) (rs : List Record) : Build :=
  { b with dependencies := rs.foldl (Query.note path) b.dependencies }

/-- Reading a link over a store of added records. -/
theorem resolve_link {b : Build} (consistent : b.site.store.Consistent) {resolver : Resolver}
    (link : resolver.isLink = true) (source : Record) (args : Value) (path : Option String) :
    b.resolve resolver source args path = (b.site.store.read source resolver,
      b.noting path (Query.returned (b.site.store.read source resolver))) := by
  have hashable (r : Record) (hr : r ∈ Query.returned (b.site.store.read source resolver)) :
      (Record.id r).isHashable = true := consistent.isHashable_id (consistent.mem_of_read hr)
  have ends : (Query.mk b.site.store b.now path).resolve source args resolver = _ :=
    Query.resolve_link consistent.working source args link
  have run := Query.run_giving ⟨b.site.store, b.now, path⟩ hashable b.dependencies
  rw [← ends] at run
  unfold Build.resolve noting
  exact congrArg (fun result => (result.1, { b with dependencies := result.2 })) run

/-- A build over the records that additions leave in a store. -/
def holding (b : Build) (stored : List Record) : Build :=
  { b with site := { b.site with store := .afterAdding stored } }

/-- Over such a store, a link gives what the records say. -/
theorem resolve_of_filled {b : Build} (stored : List Record)
    (filled : b.site.store = .afterAdding stored) {resolver : Resolver}
    (link : resolver.isLink = true) (source : Record) (args : Value) (path : Option String) :
    (b.resolve resolver source args path).1 = (Store.afterAdding stored).read source resolver := by
  have consistent : b.site.store.Consistent := filled ▸ Store.consistent_additions stored
  rw [resolve_link consistent link, filled]

end Build

namespace Store

/-- A record that satisfies a condition which no other one satisfies is also the first one that
satisfies a further condition, or there is none. -/
private theorem find?_and {α : Type} {l : List α} (p q : α → Bool)
    (unique : ∀ a ∈ l, ∀ b ∈ l, q a = true → q b = true → a = b) :
    l.find? (fun a => p a && q a) = (l.find? q).filter p := by
  cases first : l.find? q with
  | none =>
    rw [Option.filter_none, List.find?_eq_none]
    intro a ha both
    rw [Bool.and_eq_true] at both
    exact List.find?_eq_none.mp first a ha both.2
  | some a =>
    have hq := List.find?_some first
    have ha := List.mem_of_find?_eq_some first
    cases found : l.find? fun a => p a && q a with
    | none =>
      have fails := List.find?_eq_none.mp found a ha
      rw [hq, Bool.and_true] at fails
      rw [Option.filter_some, if_neg fails]
    | some b =>
      have both := List.find?_some found
      rw [Bool.and_eq_true] at both
      have same := unique a ha b (List.mem_of_find?_eq_some found) hq both.2
      subst same
      rw [Option.filter_some, if_pos both.1]

theorem null_same {v : Value} (present : v.isNull = false) : Value.null.same v = false := by
  cases v with
  | null => cases present
  | _ => simp [Value.same, Value.quantity?]

/-- The first record with an identifier. -/
def identified? (s : Store) (v : Value) : Option Record :=
  s.records.find? fun r => (Record.id r).same v

/-- A field that is null or absent equals no other value. -/
theorem scan_eq_identified? {s : Store} (working : s.fault = none) {v : Value}
    (present : v.isNull = false) : s.pointed? (some "id") v = s.identified? v := by
  rw [pointed?, linked?, nodes, working, identified?]
  change List.find? _ s.records = List.find? _ s.records
  congr 1
  funext r
  unfold Record.id Record.get
  cases Dictionary.get? r "id" with
  | some i => rfl
  | none => exact (null_same present).symm

namespace Consistent
variable {s : Store} (h : s.Consistent) {v : Value} (present : v.isNull = false)
  (defined : v.isNaN = false)
include h present defined

/-- The index leads to the record that has an equal identifier. -/
theorem indexed?_eq_some_iff_same {e : StoredRecord} :
    indexed? s.index v = some e ↔ e ∈ s.entries ∧ (Record.id e.record).same v = true := by
  rw [h.indexed?_eq_some_iff present, Value.alike_eq_same_of_right defined]

/-- The scan comes to the record that the index has. -/
theorem find?_entries :
    s.entries.find? (fun e => (Record.id e.record).same v) = indexed? s.index v := by
  have leads (e : StoredRecord) := h.indexed?_eq_some_iff_same present defined (e := e)
  cases first : s.entries.find? fun e => (Record.id e.record).same v with
  | some e =>
    have equal := List.find?_some first
    exact ((leads e).mpr ⟨List.mem_of_find?_eq_some first, equal⟩).symm
  | none =>
    cases found : indexed? s.index v with
    | none => rfl
    | some e =>
      obtain ⟨he, equal⟩ := (leads e).mp found
      exact absurd equal (List.find?_eq_none.mp first e he)

theorem identified?_eq : s.identified? v = (indexed? s.index v).map StoredRecord.record := by
  rw [← h.find?_entries present defined, identified?, records, List.find?_map]
  rfl

/-- The look-up by identifier is the scan of the identifiers. No stored identifier equals a value
that cannot be a key. -/
theorem pointed?_eq_identified? : s.pointed? none v = s.identified? v := by
  have pointed : s.pointed? none v =
      if v.isHashable then (indexed? s.index v).map StoredRecord.record else none := by
    rw [pointed?, linked?, Option.filter_none, node?, h.working]
  rw [pointed, h.identified?_eq present defined]
  split
  · rfl
  · rename_i unhashable
    cases found : indexed? s.index v with
    | none => rfl
    | some e =>
      obtain ⟨he, _, alike⟩ := h.listed v e found
      have key := h.isHashable_id (List.mem_map_of_mem he)
      exact absurd (Value.isHashable_of_alike key alike) unhashable

theorem typed?_eq_filter (type : String) :
    s.typed? type v = (s.identified? v).filter (isOfType type) := by
  have leads (e : StoredRecord) := h.indexed?_eq_some_iff_same present defined (e := e)
  refine find?_and _ _ ?_
  intro a ha b hb hqa hqb
  obtain ⟨e, he, rfl⟩ := List.mem_map.mp ha
  obtain ⟨f, hf, rfl⟩ := List.mem_map.mp hb
  have found := (leads e).mpr ⟨he, hqa⟩
  rw [(leads f).mpr ⟨hf, hqb⟩] at found
  cases found
  rfl

end Consistent
end Store

/-- A link's value without the records of other types. -/
def Value.onlyOfType (type : String) : Value → Value
  | .mapping r => if Store.isOfType type r then .mapping r else .null
  | .list items => .list (items.filter fun v => v.fields?.all (Store.isOfType type))
  | v => v

/-- When the one look-up leaves out other types, so does the link. -/
theorem Query.followed_onlyOfType {look other : Value → Option Record} {type : String}
    {isList : Bool} {v : Value}
    (less : ∀ w ∈ targets isList v, other w = (look w).filter (Store.isOfType type)) :
    followed other isList v = (followed look isList v).map (Value.onlyOfType type) := by
  unfold followed targets at *
  cases truthy : v.isTruthy with
  | false => rfl
  | true =>
    rw [truthy] at less
    cases isList with
    | false =>
      have single := less v (List.mem_singleton_self v)
      simp only [Bool.not_true, Bool.false_eq_true, if_false, single]
      cases look v with
      | none => rfl
      | some r =>
        rw [Option.filter_some]
        cases h : Store.isOfType type r <;> simp [Value.ofRecord?, Except.map, Value.onlyOfType, h]
    | true =>
      cases members : members? v with
      | none => rfl
      | some items =>
        rw [members] at less
        have kept : items.filterMap other = (items.filterMap look).filter (Store.isOfType type) := by
          rw [List.filter_filterMap]
          exact List.filterMap_congr less
        simp only [Bool.not_true, Bool.false_eq_true, if_false, if_true, Except.map,
          Value.onlyOfType, kept, List.filter_map]
        rfl

/-- After any additions, the index finds what a scan of the identifiers finds. A link to records of
a type gives what a link to records of any type gives, less those of other types. A value that
is not a number is left out, since the index knows it again and a scan does not. -/
theorem mapping_eq_node_onlyOfType (records : List Record) :
    ∃ nodes, (Store.afterAdding records).nodes = .ok nodes ∧
      (∀ v : Value, v.isNull = false → v.isNaN = false →
        (Store.afterAdding records).linked? v none =
          .ok (nodes.find? fun r => (Record.id r).same v) ∧
        (Store.afterAdding records).linked? v (some "id") =
          .ok (nodes.find? fun r => (Record.id r).same v)) ∧
      ∀ (b : Build) (key type : String) (isList : Bool) (source : Record) (args : Value)
        (path : Option String), b.site.store = Store.afterAdding records →
        (∀ v ∈ Query.targets isList (Record.get source key), v.isNull = false ∧ v.isNaN = false) →
        (b.resolve (.mapping key type isList) source args path).1 =
          (b.resolve (.node key none isList) source args path).1.map (Value.onlyOfType type) := by
  have consistent := Store.consistent_additions records
  refine ⟨(Store.afterAdding records).records, ?nodes, ?lookUp, ?links⟩
  case nodes => rw [Store.nodes, consistent.working]
  case lookUp =>
    intro v present defined
    rw [Store.linked?_eq_ok consistent.working, Store.linked?_eq_ok consistent.working,
      consistent.pointed?_eq_identified? present defined,
      Store.scan_eq_identified? consistent.working present]
    exact ⟨rfl, rfl⟩
  case links =>
    intro b key type isList source args path filled plain
    rw [← filled] at consistent
    rw [Build.resolve_link consistent rfl, Build.resolve_link consistent rfl]
    refine Query.followed_onlyOfType fun v hv => ?_
    obtain ⟨present, defined⟩ := plain v hv
    rw [consistent.typed?_eq_filter present defined,
      consistent.pointed?_eq_identified? present defined]

/-- A truth value leads to the record whose identifier is the number one, and a list to none. Of the
two records that are found only one has the type. -/
theorem mapping_eq_node_onlyOfType_mixed_list :
    (∀ v ∈ Query.targets true (Record.get
        [("k", .list [.text "b", .list [], .bool true])] "k"), v.isNull = false ∧ v.isNaN = false) ∧
    ((Build.start (.afterAdding [[("id", .int 1), ("type", .text "A")],
        [("id", .text "b"), ("type", .text "B")]]) .empty ⟨⟨2020, 1, 10⟩, 0, 0, 0, 0, 0⟩).resolve
      (.mapping "k" "A" true) [("k", .list [.text "b", .list [], .bool true])] (.mapping [])
        none).1 = .ok (.list [.mapping [("id", .int 1), ("type", .text "A")]]) := by
  have plain : ∀ v ∈ Query.targets true (Record.get
      [("k", .list [.text "b", .list [], .bool true])] "k"),
      v.isNull = false ∧ v.isNaN = false := by
    simp [Query.targets, Query.members?, Record.get, Dictionary.get?, Value.isTruthy, Value.isNull,
      Value.isNaN]
  obtain ⟨_, _, _, links⟩ := mapping_eq_node_onlyOfType
    [[("id", .int 1), ("type", .text "A")], [("id", .text "b"), ("type", .text "B")]]
  exact ⟨plain, (links _ "k" "A" true _ (.mapping []) none rfl plain).trans rfl⟩

end ContentSchema
