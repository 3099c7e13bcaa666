import ContentSchema.Proofs.DictionaryEntries
import ContentSchema.Proofs.RegisteredNames

/-! A pass over groups of records whose types are registered. It assigns to each type what inference
finds for its records, and nothing that it assigns has any bearing on what it finds for others. -/
namespace ContentSchema

/-- The name of the type that records share. -/
def Record.sharedTypeName (records : List Record) : String :=
  match records with
  | [] => ""
  | r :: _ => r.typeName

theorem typeNameOf_mapping (records : List Record) :
    typeNameOf (records.map Value.mapping) = .ok (Record.sharedTypeName records) := by
  cases records with
  | nil => rfl
  | cons r records => rfl

theorem Example.ofEntries_mapping (records : List Record) (given : Option Record) :
    ofEntries (records.map Value.mapping) given = .ok (given.getD (ofRecords records)) := by
  cases given with
  | some fields => rfl
  | none =>
    rw [ofEntries, Record.listOf_mapping]
    rfl

/-- A pass that has claimed a name. -/
def Pass.reserve (pass : Pass) (name : String) : Pass :=
  { pass with namer := pass.namer.reserve name }

namespace Site

/-- A site in which the type of some records is registered, without fields. -/
def declaring (site : Site) (records : List Record) : Site :=
  { site with registry :=
      site.registry.put (Record.sharedTypeName records) ⟨records.map Value.mapping, []⟩ }

/-- The record type that inference finds for some records, and what it leaves behind. -/
def inferred (site : Site) (records : List Record) (pass : Pass) : RecordType × Pass :=
  let run := OutputFields.ofExample site (Record.sharedTypeName records) none
    (Example.ofRecords records) (pass.reserve (Record.sharedTypeName records))
  (⟨records.map Value.mapping, run.1⟩, run.2)

/-- The record types that inference finds for some groups, under their names. -/
def inferredAll (site : Site) : List (List Record) → Pass → Dictionary RecordType × Pass
  | [], pass => ([], pass)
  | group :: rest, pass =>
    let (type, between) := site.inferred group pass
    let (types, after) := site.inferredAll rest between
    ((Record.sharedTypeName group, type) :: types, after)

theorem Agrees.inferred_eq {a b : Site} (agrees : a.Agrees b) (records : List Record)
    (pass : Pass) : a.inferred records pass = b.inferred records pass := by
  unfold inferred
  rw [agrees.ofExample_eq]

theorem Agrees.inferredAll_eq {a b : Site} (agrees : a.Agrees b) (groups : List (List Record))
    (pass : Pass) : a.inferredAll groups pass = b.inferredAll groups pass := by
  induction groups generalizing pass with
  | nil => rfl
  | cons group rest ih => simp only [inferredAll, agrees.inferred_eq, ih]

theorem keys_inferredAll (site : Site) (groups : List (List Record)) (pass : Pass) :
    Dictionary.keys (site.inferredAll groups pass).1 = groups.map Record.sharedTypeName := by
  induction groups generalizing pass with
  | nil => rfl
  | cons group rest ih =>
    have others := ih (site.inferred group pass).2
    exact congrArg (Record.sharedTypeName group :: ·) others

/-- Every group is among what inference finds, with its own records. -/
theorem mem_inferredAll (site : Site) (pass : Pass) {groups : List (List Record)}
    {group : List Record} (h : group ∈ groups) :
    ∃ type, (Record.sharedTypeName group, type) ∈ (site.inferredAll groups pass).1 ∧
      group.map Value.mapping = type.nodes := by
  induction groups generalizing pass with
  | nil => cases h
  | cons first rest ih =>
    rcases List.mem_cons.mp h with same | hrest
    · subst same
      exact ⟨_, List.mem_cons_self, rfl⟩
    · obtain ⟨type, hmem, hnodes⟩ := ih (site.inferred first pass).2 hrest
      exact ⟨type, List.mem_cons_of_mem _ hmem, hnodes⟩

end Site

theorem Registry.has_put_of_has {r : Registry} {name : String} (registered : r.has name = true)
    (type : RecordType) (target : String) : (r.put name type).has target = r.has target := by
  unfold has get? put at *
  rw [Dictionary.get?_put]
  split
  · rename_i same
    subst same
    exact registered.symm
  · rfl

namespace Build

/-- Build the record types of some groups, one after the other. -/
def recordTypes (b : Build) : List (List Record) → List (Except NotRecord String) × Build
  | [] => ([], b)
  | group :: rest =>
    let (outcome, b) := b.recordType (group.map Value.mapping)
    let (outcomes, b) := b.recordTypes rest
    (outcome :: outcomes, b)

/-- Build the record types of some groups in a further pass. -/
def rebuild (b : Build) (groups : List (List Record)) : List (Except NotRecord String) × Build :=
  b.next.recordTypes groups

/-- A build that has come to another registry and another state of its pass. -/
def leave (b : Build) (registry : Registry) (pass : Pass) : Build :=
  { b with site := { b.site with registry := registry }, pass := pass }

theorem outputFields_mapping (b : Build) (records : List Record) (selector : Option String)
    (given : Option Record) :
    b.outputFields (records.map Value.mapping) selector given =
      let run := OutputFields.ofExample b.site (Record.sharedTypeName records) selector
        (given.getD (Example.ofRecords records)) b.pass
      (.ok run.1, b.leave b.site.registry run.2) := by
  rw [outputFields, Example.ofEntries_mapping, typeNameOf_mapping]
  rfl

/-- Records always get a record type, the one that is inferred while it is registered without
fields. -/
theorem recordType_mapping (b : Build) (records : List Record) :
    b.recordType (records.map Value.mapping) =
      let run := (b.site.declaring records).inferred records b.pass
      (.ok (Record.sharedTypeName records),
        b.leave (b.site.registry.put (Record.sharedTypeName records) run.1) run.2) := by
  have twice (type : RecordType) :
      (b.site.declaring records).registry.put (Record.sharedTypeName records) type =
        b.site.registry.put (Record.sharedTypeName records) type :=
    congrArg Registry.mk (Dictionary.put_put _ _ _ _)
  rw [recordType, typeNameOf_mapping]
  simp only [outputFields_mapping, ← twice]
  rfl

theorem agrees_leave {b : Build} {name : String} (registered : b.site.registry.has name = true)
    (type : RecordType) (pass : Pass) :
    (b.leave (b.site.registry.put name type) pass).site.Agrees b.site where
  store := rfl
  config := rfl
  convention := rfl
  registered := Registry.has_put_of_has registered type

/-- A type that is registered gets what inference finds. -/
theorem recordType_of_has {b : Build} {records : List Record}
    (registered : b.site.registry.has (Record.sharedTypeName records) = true) :
    b.recordType (records.map Value.mapping) =
      (.ok (Record.sharedTypeName records),
        b.leave (b.site.registry.put (Record.sharedTypeName records)
          (b.site.inferred records b.pass).1) (b.site.inferred records b.pass).2) := by
  have agrees : (b.site.declaring records).Agrees b.site :=
    agrees_leave registered ⟨records.map Value.mapping, []⟩ b.pass
  rw [recordType_mapping, agrees.inferred_eq]

/-- A pass over groups whose types are registered is a sequence of assignments. -/
theorem recordTypes_eq {b : Build} {groups : List (List Record)}
    (registered : ∀ group ∈ groups, b.site.registry.has (Record.sharedTypeName group) = true) :
    b.recordTypes groups =
      (groups.map fun group => .ok (Record.sharedTypeName group),
        b.leave ⟨b.site.registry.types.assign (b.site.inferredAll groups b.pass).1⟩
          (b.site.inferredAll groups b.pass).2) := by
  induction groups generalizing b with
  | nil => rfl
  | cons group rest ih =>
    have first := registered group List.mem_cons_self
    have agrees := agrees_leave first (b.site.inferred group b.pass).1
      (b.site.inferred group b.pass).2
    rw [recordTypes, recordType_of_has first]
    simp only
    rw [ih fun other hother => (agrees.registered _).trans
      (registered other (List.mem_cons_of_mem _ hother)), agrees.inferredAll_eq]
    rfl

/-- A pass leaves the registered names as they are. -/
theorem names_recordTypes {b : Build} {groups : List (List Record)}
    (registered : ∀ group ∈ groups, b.site.registry.has (Record.sharedTypeName group) = true) :
    (b.recordTypes groups).2.site.registry.names = b.site.registry.names := by
  rw [recordTypes_eq registered]
  apply Dictionary.keys_assign
  intro name hname
  rw [Site.keys_inferredAll] at hname
  obtain ⟨group, hgroup, rfl⟩ := List.mem_map.mp hname
  exact registered group hgroup

end Build
end ContentSchema
