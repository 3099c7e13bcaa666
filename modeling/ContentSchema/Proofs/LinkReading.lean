import ContentSchema.Build
import ContentSchema.Proofs.StoreHistory

/-! What resolvers give that follow links. Such a resolver ends in a way that does not depend on
what is recorded already, and records exactly the records that it gives. -/
namespace ContentSchema

/-- Resolvers that follow links to records. -/
def Resolver.isLink : Resolver → Bool
  | .date _ => false
  | .mapping .. | .node .. | .file _ => true

namespace Value

/-- The records in a value that a resolver gives. -/
def recordsIn : Value → List Record
  | .mapping r => [r]
  | .list items => items.filterMap fields?
  | _ => []

theorem recordsIn_list (rs : List Record) : (Value.list (rs.map .mapping)).recordsIn = rs := by
  simp [recordsIn, List.filterMap_map, Function.comp_def, fields?]

/-- A record as a value, null when there is none. -/
def ofRecord? : Option Record → Value
  | some r => .mapping r
  | none => .null

theorem recordsIn_ofRecord? (r : Option Record) : (ofRecord? r).recordsIn = r.toList := by
  cases r <;> rfl

end Value

namespace Query

/-- The records that a resolver gives; none when it fails. -/
def returned : Except ResolveError Value → List Record
  | .ok v => v.recordsIn
  | .error _ => []

/-- The members that a list link follows, when it can. -/
def members? : Value → Option (List Value)
  | .list items => some items
  | .tuple items => some items
  | .text s => some (s.toList.map fun c => .text (String.ofList [c]))
  | .mapping fields => some (fields.map fun field => .text field.1)
  | .bytes content => some (content.map fun b => .int b.toNat)
  | _ => none

/-- The values that a link follows, one after the other. -/
def targets (isList : Bool) (v : Value) : List Value :=
  if !v.isTruthy then [] else if isList then (members? v).getD [] else [v]

/-- What a link gives by the record that each value leads to. -/
def followed (look : Value → Option Record) (isList : Bool) (v : Value) :
    Except ResolveError Value :=
  if !v.isTruthy then .ok .null
  else if isList then
    match members? v with
    | some items => .ok (.list ((items.filterMap look).map .mapping))
    | none => .error (.wrongKind v)
  else .ok (Value.ofRecord? (look v))

theorem returned_followed (look : Value → Option Record) (isList : Bool) (v : Value) :
    returned (followed look isList v) = (targets isList v).filterMap look := by
  unfold followed targets
  cases v.isTruthy with
  | false => rfl
  | true =>
    cases isList with
    | false =>
      refine (Value.recordsIn_ofRecord? (look v)).trans ?_
      cases h : look v <;> simp [h]
    | true =>
      cases members? v with
      | none => rfl
      | some items => exact Value.recordsIn_list _

end Query

namespace Store
variable (s : Store)

/-- The first record of a type with an identifier. -/
def typed? (type : String) (id : Value) : Option Record :=
  s.records.find? fun r => isOfType type r && (Record.id r).same id

/-- The record that a value points at. -/
def pointed? (linkedField : Option String) (v : Value) : Option Record :=
  match s.linked? v linkedField with
  | .ok r => r
  | .error _ => none

/-- The file at a path relative to the file that is the parent of a record. -/
def fileAt? (source : Record) (relative : String) : Except ResolveError (Option Record) :=
  match s.typed? fileType (Record.get source "parent") with
  | none => .ok none
  | some parent =>
    if !(Record.get parent "dir").isTruthy then .ok none
    else match Record.get parent "dir" with
      | .text directory => .ok (s.records.find? fun r => isOfType fileType r &&
          (Record.get r "absolutePath").same (.text (Path.resolve directory relative)))
      | directory => .error (.wrongKind directory)

/-- What a link gives of a record, whatever the query. -/
def read (source : Record) : Resolver → Except ResolveError Value
  | .mapping key type isList => Query.followed (s.typed? type) isList (Record.get source key)
  | .node key linkedField isList =>
    Query.followed (s.pointed? linkedField) isList (Record.get source key)
  | .file key =>
    match Record.get source key with
    | .text relative =>
      if relative.isEmpty then .ok .null
      else (s.fileAt? source relative).map Value.ofRecord?
    | _ => .ok .null
  | .date _ => .ok .null

variable {s}

theorem linked?_eq_ok (working : s.fault = none) (v : Value) (linkedField : Option String) :
    s.linked? v linkedField = .ok (s.pointed? linkedField v) := by
  unfold pointed? linked? node? nodes
  rw [working]
  cases linkedField.filter fun field => !field.isEmpty <;> rfl

end Store

namespace Query

theorem members_eq (v : Value) :
    members v = match members? v with
      | some items => pure items
      | none => throw (.wrongKind v) := by
  cases v <;> rfl

section
variable (query : Query)

/-- Record that the answer at the path depends on some records, one after the other. -/
def dependAll (rs : List Record) : Resolving Unit := rs.forM query.depend

/-- End as told, once the records that are given are recorded. -/
def giving (outcome : Except ResolveError Value) : Resolving Value := do
  query.dependAll (returned outcome)
  ofExcept outcome

theorem giving_of_returned {outcome : Except ResolveError Value} {rs : List Record}
    (h : returned outcome = rs) :
    query.giving outcome = (query.dependAll rs >>= fun _ => ofExcept outcome) := by
  subst h
  rfl

theorem giving_of_returned_nil {outcome : Except ResolveError Value} (h : returned outcome = []) :
    query.giving outcome = ofExcept outcome :=
  (query.giving_of_returned h).trans (pure_bind () fun _ => ofExcept outcome)

theorem found_eq (r : Option Record) :
    query.found r = do
      query.dependAll r.toList
      return r := by
  cases r <;> simp [found, dependAll]

theorem found_bind (r : Option Record) :
    (query.found r >>= fun r => pure (Value.ofRecord? r)) =
      query.giving (.ok (Value.ofRecord? r)) := by
  have given : returned (.ok (Value.ofRecord? r)) = r.toList := Value.recordsIn_ofRecord? r
  rw [query.giving_of_returned given, found_eq, bind_assoc]
  rfl

theorem mapM_found (look : Value → Option Record) (values : List Value) :
    (values.mapM fun v => query.found (look v)) = do
      query.dependAll (values.filterMap look)
      return values.map look := by
  induction values with
  | nil => simp [dependAll]
  | cons v rest ih =>
    rw [List.mapM_cons, ih, found_eq]
    cases h : look v <;> simp [dependAll, h]

/-- When every look-up succeeds, a link records what it gives. -/
theorem follow_found (look : Value → Option Record) (isList : Bool) (v : Value) :
    follow (fun v => query.found (look v)) isList v = query.giving (followed look isList v) := by
  unfold follow followed
  cases v.isTruthy with
  | false => exact (query.giving_of_returned_nil (rfl : returned (.ok .null) = [])).symm
  | true =>
    cases isList with
    | false => exact query.found_bind (look v)
    | true =>
      simp only [Bool.not_true, Bool.false_eq_true, if_false, if_true, members_eq]
      cases members? v with
      | none => exact (query.giving_of_returned_nil (rfl : returned (.error (.wrongKind v)) = [])).symm
      | some items =>
        have given : returned (.ok (.list ((items.filterMap look).map .mapping))) =
            items.filterMap look := Value.recordsIn_list _
        rw [query.giving_of_returned given]
        have kept : (items.map look).reduceOption = items.filterMap look := List.filterMap_map
        simp only [pure_bind, mapM_found, bind_assoc, kept]
        rfl

end

/-- When every look-up fails, a link gives no record. -/
theorem follow_throw (e : ResolveError) (isList : Bool) (v : Value) :
    ∃ outcome, returned outcome = [] ∧ follow (fun _ => throw e) isList v = ofExcept outcome := by
  unfold follow
  cases v.isTruthy with
  | false => exact ⟨.ok .null, rfl, rfl⟩
  | true =>
    cases isList with
    | false => exact ⟨.error e, rfl, rfl⟩
    | true =>
      simp only [Bool.not_true, Bool.false_eq_true, if_false, if_true, members_eq]
      cases members? v with
      | none => exact ⟨.error (.wrongKind v), rfl, rfl⟩
      | some items =>
        cases items with
        | nil => exact ⟨.ok (.list []), rfl, rfl⟩
        | cons first rest => exact ⟨.error e, rfl, rfl⟩

section
variable {query : Query} (working : query.store.fault = none)
include working

theorem nodes_eq : query.nodes = pure query.store.records := by
  rw [Query.nodes, Store.nodes, working]

theorem ofType_eq (type : String) (id : Value) :
    query.ofType type id = pure (query.store.typed? type id) := by
  rw [ofType, nodes_eq working, pure_bind]
  rfl

theorem mapped_eq (type : String) :
    query.mapped type = fun v => query.found (query.store.typed? type v) := by
  funext v
  rw [mapped, ofType_eq working, pure_bind]

theorem linked_eq (linkedField : Option String) :
    query.linked linkedField = fun v => query.found (query.store.pointed? linkedField v) := by
  funext v
  rw [linked, Store.linked?_eq_ok working]

theorem fileAt_eq (source : Record) (relative : String) :
    query.fileAt source relative = match query.store.fileAt? source relative with
      | .ok r => query.found r
      | .error e => throw e := by
  unfold fileAt Store.fileAt?
  rw [ofType_eq working, nodes_eq working]
  simp only [pure_bind]
  cases query.store.typed? fileType (Record.get source "parent") with
  | none => rfl
  | some parent =>
    simp only
    cases (Record.get parent "dir").isTruthy with
    | false => rfl
    | true => cases Record.get parent "dir" <;> rfl

/-- A link ends in a way that only the store and the record decide on, and records what it gives. -/
theorem resolve_link (source : Record) (args : Value) {resolver : Resolver}
    (link : resolver.isLink = true) :
    query.resolve source args resolver = query.giving (query.store.read source resolver) := by
  cases resolver with
  | date fieldName => cases link
  | mapping key type isList => rw [resolve, mapped_eq working, follow_found, Store.read]
  | node key linkedField isList => rw [resolve, linked_eq working, follow_found, Store.read]
  | file key =>
    rw [resolve, Store.read]
    cases Record.get source key with
    | text relative =>
      simp only
      cases relative.isEmpty with
      | true => exact (query.giving_of_returned_nil (rfl : returned (.ok .null) = [])).symm
      | false =>
        simp only [fileAt_eq working, Bool.false_eq_true, if_false]
        cases query.store.fileAt? source relative with
        | error e => exact (query.giving_of_returned_nil (rfl : returned (.error e) = [])).symm
        | ok r => exact query.found_bind r
    | _ => exact (query.giving_of_returned_nil (rfl : returned (.ok .null) = [])).symm

end

/-- A store that is out of order gives no record. -/
theorem resolve_of_fault {query : Query} {text : String} (fault : query.store.fault = some text)
    (source : Record) (args : Value) {resolver : Resolver} (link : resolver.isLink = true) :
    ∃ outcome, returned outcome = [] ∧ query.resolve source args resolver = ofExcept outcome := by
  have nodes : query.nodes = throw (.store ⟨text⟩) := by rw [Query.nodes, Store.nodes, fault]
  cases resolver with
  | date fieldName => cases link
  | mapping key type isList =>
    have find : query.mapped type = fun _ => throw (.store ⟨text⟩) := by
      funext v
      rw [mapped, ofType, nodes]
      rfl
    rw [resolve, find]
    exact follow_throw _ _ _
  | node key linkedField isList =>
    have find : query.linked linkedField = fun _ => throw (.store ⟨text⟩) := by
      funext v
      unfold linked Store.linked? Store.node? Store.nodes
      rw [fault]
      cases linkedField.filter fun field => !field.isEmpty <;> rfl
    rw [resolve, find]
    exact follow_throw _ _ _
  | file key =>
    rw [resolve]
    cases Record.get source key with
    | text relative =>
      simp only
      cases relative.isEmpty with
      | true => exact ⟨.ok .null, rfl, rfl⟩
      | false =>
        simp only [Bool.false_eq_true, if_false]
        rw [fileAt, ofType, nodes]
        exact ⟨.error (.store ⟨text⟩), rfl, rfl⟩
    | _ => exact ⟨.ok .null, rfl, rfl⟩

/-- What is recorded once the answer at a path, if there is one, holds a record. -/
def note (path : Option String) (d : Dependencies) (r : Record) : Dependencies :=
  match path with
  | none => d
  | some path => if (Record.id r).isNull then d else (d.add path (Record.id r)).2

section
variable (query : Query)

theorem run_depend {r : Record} (hashable : (Record.id r).isHashable = true) (d : Dependencies) :
    (query.depend r).run.run d = (.ok (), note query.path d r) := by
  unfold depend note
  cases query.path with
  | none => rfl
  | some path =>
    simp only
    cases (Record.id r).isNull with
    | true => rfl
    | false =>
      obtain ⟨after, added⟩ : ∃ after, d.add path (Record.id r) = (.ok (), after) := by
        rw [Dependencies.add, if_pos hashable]
        exact ⟨_, rfl⟩
      have known : (getThe Dependencies : Resolving Dependencies).run.run d = (.ok d, d) := rfl
      rw [if_neg Bool.false_ne_true, if_neg Bool.false_ne_true, Store.run_bind, known]
      simp only [added]
      rfl

theorem run_dependAll {rs : List Record} (hashable : ∀ r ∈ rs, (Record.id r).isHashable = true)
    (d : Dependencies) :
    (query.dependAll rs).run.run d = (.ok (), rs.foldl (note query.path) d) := by
  induction rs generalizing d with
  | nil => rfl
  | cons r rs ih =>
    obtain ⟨first, others⟩ := List.forall_mem_cons.mp hashable
    change (query.depend r >>= fun _ => query.dependAll rs).run.run d = _
    rw [Store.run_bind, query.run_depend first]
    exact ih others _

/-- When every record that is given can be recorded, the run ends as told. -/
theorem run_giving {outcome : Except ResolveError Value}
    (hashable : ∀ r ∈ returned outcome, (Record.id r).isHashable = true) (d : Dependencies) :
    (query.giving outcome).run.run d = (outcome, (returned outcome).foldl (note query.path) d) := by
  rw [giving, Store.run_bind, query.run_dependAll hashable]
  cases outcome <;> rfl

/-- A run that ends well ends as told. -/
theorem eq_of_run_giving {outcome : Except ResolveError Value} {d : Dependencies} {v : Value}
    (h : ((query.giving outcome).run.run d).1 = .ok v) : outcome = .ok v := by
  rw [giving, Store.run_bind] at h
  revert h
  rcases (query.dependAll (returned outcome)).run.run d with ⟨_ | _, _⟩
  · exact nofun
  · cases outcome with
    | error e => exact nofun
    | ok w => exact id

end
end Query
end ContentSchema
