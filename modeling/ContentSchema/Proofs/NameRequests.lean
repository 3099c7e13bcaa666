import ContentSchema.Build
import ContentSchema.Proofs.FilterRun
import ContentSchema.Proofs.FirstRequests
import ContentSchema.Proofs.VisitedKeys

/-! What inference asks a namer. A call of a builder does to the names what its requests do, one
after the other. -/
namespace ContentSchema

/-- A namer after some more requests. -/
def Namer.serveAll (n : Namer) (requests : List Request) : Namer := requests.foldl serve n

theorem Namer.serveAll_append (n : Namer) (a b : List Request) :
    n.serveAll (a ++ b) = (n.serveAll a).serveAll b := List.foldl_append

namespace OutputFields
section
variable (site : Site) (typeName : String)

mutual
/-- The requests of a run over a value. An object type is named after those inside it, and only when
it has a field. -/
def requests (selector : String) : Value → Pass → List Namer.Request
  | .list (head :: _), pass => requests selector head pass
  | .tuple (head :: _), pass => requests selector head pass
  | .mapping fields, pass =>
    requestsBelow selector fields pass ++
      if (ofFields site typeName selector fields pass).1.isEmpty then []
      else [.nameFor (typeName ++ "." ++ selector) none]
  | _, _ => []
/-- The requests of a run over the fields of a mapping. There is none for a link. -/
def requestsBelow (selector : String) : List (String × Value) → Pass → List Namer.Request
  | [], _ => []
  | (key, v) :: rest, pass =>
    let x : Visit := ⟨selector, key, v, pass⟩
    (match linkOf? site typeName selector key v with
      | some _ => []
      | none => requests (childSelector selector key) v pass) ++
      requestsBelow selector rest (x.outcome site typeName).2
end

mutual
theorem namer_ofValue : ∀ (selector fieldName : String) (v : Value) (pass : Pass),
    (ofValue site typeName selector fieldName v pass).2.namer =
      pass.namer.serveAll (requests site typeName selector v pass)
  | selector, fieldName, .list (head :: rest), pass => by
    rw [ofValue_sequence site typeName selector fieldName pass rfl, requests]
    exact namer_ofValue selector fieldName head pass
  | selector, fieldName, .tuple (head :: rest), pass => by
    rw [ofValue_sequence site typeName selector fieldName pass rfl, requests]
    exact namer_ofValue selector fieldName head pass
  | selector, fieldName, .mapping fields, pass => by
    have below := namer_ofFields selector fields pass
    rw [ofValue_mapping, requests, Namer.serveAll_append, ← below]
    rcases ofFields site typeName selector fields pass with ⟨_ | _, _⟩ <;> rfl
  | selector, fieldName, .list [], pass => by
    rw [ofValue_empty site typeName selector fieldName pass rfl]
    simp only [requests]
    rfl
  | selector, fieldName, .tuple [], pass => by
    rw [ofValue_empty site typeName selector fieldName pass rfl]
    simp only [requests]
    rfl
  | selector, fieldName, .null, pass | selector, fieldName, .bool _, pass
  | selector, fieldName, .int _, pass | selector, fieldName, .float _, pass
  | selector, fieldName, .text _, pass | selector, fieldName, .bytes _, pass
  | selector, fieldName, .foreign _ _, pass => by
    rw [ofValue_single site typeName selector fieldName pass rfl rfl]
    simp only [requests]
    rfl
theorem namer_ofFields : ∀ (selector : String) (fields : List (String × Value)) (pass : Pass),
    (ofFields site typeName selector fields pass).2.namer =
      pass.namer.serveAll (requestsBelow site typeName selector fields pass)
  | selector, [], pass => rfl
  | selector, (key, v) :: rest, pass => by
    have own : (Visit.outcome site typeName ⟨selector, key, v, pass⟩).2.namer = pass.namer.serveAll
        (match linkOf? site typeName selector key v with
          | some _ => []
          | none => requests site typeName (childSelector selector key) v pass) := by
      rw [Visit.outcome_eq]
      simp only
      rcases linkOf? site typeName selector key v with _ | _ | _
      · have inside := namer_ofValue (childSelector selector key) key v pass
        simp only [← inside]
        rcases ofValue site typeName (childSelector selector key) key v pass with ⟨_ | _, _⟩ <;> rfl
      · rfl
      · rfl
    rw [ofFields_cons_eq site typeName ⟨selector, key, v, pass⟩, requestsBelow,
      Namer.serveAll_append, ← own]
    exact namer_ofFields selector rest _
end

mutual
theorem eq_of_mem_requests {r : Namer.Request} : ∀ (selector : String) (v : Value) (pass : Pass),
    r ∈ requests site typeName selector v pass → ∃ s, r = .nameFor (typeName ++ "." ++ s) none
  | selector, .list (head :: rest), pass, h => by
    rw [requests] at h
    exact eq_of_mem_requests selector head pass h
  | selector, .tuple (head :: rest), pass, h => by
    rw [requests] at h
    exact eq_of_mem_requests selector head pass h
  | selector, .mapping fields, pass, h => by
    rw [requests] at h
    rcases List.mem_append.mp h with h | h
    · exact eq_of_mem_requestsBelow selector fields pass h
    · split at h
      · cases h
      · exact ⟨selector, List.mem_singleton.mp h⟩
  | selector, .list [], pass, h | selector, .tuple [], pass, h
  | selector, .null, pass, h | selector, .bool _, pass, h | selector, .int _, pass, h
  | selector, .float _, pass, h | selector, .text _, pass, h | selector, .bytes _, pass, h
  | selector, .foreign _ _, pass, h => by
    simp only [requests] at h
    cases h
theorem eq_of_mem_requestsBelow {r : Namer.Request} :
    ∀ (selector : String) (fields : List (String × Value)) (pass : Pass),
      r ∈ requestsBelow site typeName selector fields pass →
        ∃ s, r = .nameFor (typeName ++ "." ++ s) none
  | selector, [], pass, h => nomatch h
  | selector, (key, v) :: rest, pass, h => by
    rw [requestsBelow] at h
    rcases List.mem_append.mp h with h | h
    · split at h
      · cases h
      · exact eq_of_mem_requests (childSelector selector key) v pass h
    · exact eq_of_mem_requestsBelow selector rest _ h
end

end
end OutputFields

namespace FilterFields

/-- How the names of filter inputs end. -/
def endings : List String :=
  ["QueryBoolean", "QueryString", "QueryNumber", "QueryFloat", "QueryList", "InputObject"]

theorem ending_mem_endings (s : Scalar) : ending s ∈ endings := by cases s <;> decide

/-- The request for the name of the filter input at a path. -/
def request (path stem ending : String) : Namer.Request :=
  .nameFor (path ++ ":" ++ ending) (some (stem ++ ending))

/-- The requests for a list, by its first member and the requests for that. -/
def requestsOfList (path stem : String) (head : Value) (inner : List Namer.Request) :
    List Namer.Request :=
  match Scalar.ofKind? (kindOf head) with
  | some _ => [request path stem "QueryList"]
  | none =>
    if kindOf head = .list ∨ kindOf head = .object then request path stem "QueryList" :: inner
    else []

mutual
/-- The requests of a run over a value. A list is named before the input for its members, and an
object after the inputs for its keys, if there are any. -/
def requests (path stem : String) : Value → Namer → List Namer.Request
  | .list (head :: _), n =>
    requestsOfList path stem head
      (requests (path ++ "[]") stem head (nameAt path stem "QueryList" n).2)
  | .tuple (head :: _), n =>
    requestsOfList path stem head
      (requests (path ++ "[]") stem head (nameAt path stem "QueryList" n).2)
  | .mapping fields, n =>
    requestsBelow path stem fields n ++
      if (ofFields path stem fields n).1.isEmpty then [] else [request path stem "InputObject"]
  | v, _ => match Scalar.ofKind? (kindOf v) with
    | some s => [request path stem (ending s)]
    | none => []
/-- The requests of a run over the fields of a mapping. -/
def requestsBelow (path stem : String) : List (String × Value) → Namer → List Namer.Request
  | [], _ => []
  | (key, v) :: rest, n =>
    requests (path ++ "." ++ key) (stemBelow stem key) v n ++
      requestsBelow path stem rest (ofValue (path ++ "." ++ key) (stemBelow stem key) v n).2
end

private theorem namer_of_sequence {path stem : String} {w head : Value} {rest : List Value}
    {n : Namer} {inner : List Namer.Request} (h : w.items? = some (head :: rest))
    (ih : (ofValue (path ++ "[]") stem head (nameAt path stem "QueryList" n).2).2 =
      (nameAt path stem "QueryList" n).2.serveAll inner) :
    (ofValue path stem w n).2 = n.serveAll (requestsOfList path stem head inner) := by
  unfold requestsOfList
  cases hs : Scalar.ofKind? (kindOf head) with
  | some s =>
    rw [ofValue_scalars path stem n h hs]
    rfl
  | none =>
    by_cases hk : kindOf head = .list ∨ kindOf head = .object
    · rw [ofValue_containers path stem n h hk]
      simp only [hk, if_true]
      exact ih
    · rw [ofValue_others path stem n h hs hk]
      simp only [hk, if_false]
      rfl

mutual
theorem namer_ofValue : ∀ (path stem : String) (v : Value) (n : Namer),
    (ofValue path stem v n).2 = n.serveAll (requests path stem v n)
  | path, stem, .list (head :: rest), n => by
    rw [requests]
    exact namer_of_sequence rfl (namer_ofValue (path ++ "[]") stem head _)
  | path, stem, .tuple (head :: rest), n => by
    rw [requests]
    exact namer_of_sequence rfl (namer_ofValue (path ++ "[]") stem head _)
  | path, stem, .mapping fields, n => by
    have below := namer_ofFields path stem fields n
    rw [ofValue_mapping, requests, Namer.serveAll_append, ← below]
    rcases ofFields path stem fields n with ⟨_ | _, _⟩ <;> rfl
  | path, stem, .list [], n | path, stem, .tuple [], n => by
    rw [ofValue_empty path stem n rfl]
    simp only [requests]
    rfl
  | path, stem, .null, n | path, stem, .bool _, n | path, stem, .int _, n
  | path, stem, .float _, n | path, stem, .text _, n | path, stem, .bytes _, n
  | path, stem, .foreign _ _, n => by
    rw [ofValue_single path stem n rfl rfl]
    simp only [requests]
    generalize Scalar.ofKind? (kindOf _) = scalar
    cases scalar <;> rfl
theorem namer_ofFields : ∀ (path stem : String) (fields : List (String × Value)) (n : Namer),
    (ofFields path stem fields n).2 = n.serveAll (requestsBelow path stem fields n)
  | path, stem, [], n => rfl
  | path, stem, (key, v) :: rest, n => by
    have own := namer_ofValue (path ++ "." ++ key) (stemBelow stem key) v n
    have others := namer_ofFields path stem rest
      (ofValue (path ++ "." ++ key) (stemBelow stem key) v n).2
    rw [requestsBelow, Namer.serveAll_append, ← own, ← others, ofFields_cons]
    rcases ofValue (path ++ "." ++ key) (stemBelow stem key) v n with ⟨_ | _, _⟩ <;> rfl
end

/-- The name of a filter input is asked for with an ending. -/
def IsRequest (r : Namer.Request) : Prop :=
  ∃ path stem, ∃ ending ∈ endings, r = request path stem ending

private theorem isRequest_of_sequence {path stem : String} {head : Value}
    {inner : List Namer.Request} {r : Namer.Request} (ih : r ∈ inner → IsRequest r)
    (h : r ∈ requestsOfList path stem head inner) : IsRequest r := by
  have own : IsRequest (request path stem "QueryList") := ⟨path, stem, _, by decide, rfl⟩
  unfold requestsOfList at h
  split at h
  · cases List.mem_singleton.mp h
    exact own
  · split at h
    · rcases List.mem_cons.mp h with rfl | h
      · exact own
      · exact ih h
    · cases h

mutual
theorem isRequest_of_mem_requests {r : Namer.Request} :
    ∀ (path stem : String) (v : Value) (n : Namer), r ∈ requests path stem v n → IsRequest r
  | path, stem, .list (head :: rest), n, h => by
    rw [requests] at h
    exact isRequest_of_sequence (isRequest_of_mem_requests _ stem head _) h
  | path, stem, .tuple (head :: rest), n, h => by
    rw [requests] at h
    exact isRequest_of_sequence (isRequest_of_mem_requests _ stem head _) h
  | path, stem, .mapping fields, n, h => by
    rw [requests] at h
    rcases List.mem_append.mp h with h | h
    · exact isRequest_of_mem_requestsBelow path stem fields n h
    · split at h
      · cases h
      · exact ⟨path, stem, _, by decide, List.mem_singleton.mp h⟩
  | path, stem, .list [], n, h | path, stem, .tuple [], n, h | path, stem, .null, n, h
  | path, stem, .bool _, n, h | path, stem, .int _, n, h | path, stem, .float _, n, h
  | path, stem, .text _, n, h | path, stem, .bytes _, n, h | path, stem, .foreign _ _, n, h => by
    simp only [requests] at h
    split at h
    · exact ⟨path, stem, _, ending_mem_endings _, List.mem_singleton.mp h⟩
    · cases h
theorem isRequest_of_mem_requestsBelow {r : Namer.Request} :
    ∀ (path stem : String) (fields : List (String × Value)) (n : Namer),
      r ∈ requestsBelow path stem fields n → IsRequest r
  | path, stem, [], n, h => nomatch h
  | path, stem, (key, v) :: rest, n, h => by
    rw [requestsBelow] at h
    rcases List.mem_append.mp h with h | h
    · exact isRequest_of_mem_requests _ _ v n h
    · exact isRequest_of_mem_requestsBelow path stem rest _ h
end

end FilterFields

/-- What is done in one context: a builder is called, a name is reserved, or the rest changes that
builders work from. -/
inductive NamingStep where
  | outputFields (entries : List Value) (selector : Option String) (given : Option Record)
  | outputField (value : Value) (selector : String) (entries : List Value)
      (fieldName : Option String)
  | recordType (entries : List Value)
  | filterFields (entries : List Value) (place : FilterFields.Place) (given : Option Record)
      (path : Option String)
  | filterField (value : Value) (stem : String) (path : Option String)
  | reserve (name : String)
  | work (site : Site)

namespace Build

def perform (b : Build) : NamingStep → Build
  | .outputFields entries selector given => (b.outputFields entries selector given).2
  | .outputField value selector entries fieldName =>
    (b.outputField value selector entries fieldName).2
  | .recordType entries => (b.recordType entries).2
  | .filterFields entries place given path => (b.filterFields entries place given path).2
  | .filterField value stem path => (b.filterField value stem path).2
  | .reserve name => b.setNamer (b.pass.namer.reserve name)
  | .work site => { b with site := site }

def performAll (b : Build) (steps : List NamingStep) : Build := steps.foldl perform b

def outputRequests (b : Build) (entries : List Value) (selector : Option String)
    (given : Option Record) : List Namer.Request :=
  match Example.ofEntries entries given, typeNameOf entries with
  | .ok fields, .ok typeName =>
    OutputFields.requestsBelow b.site typeName (selector.getD "")
      (OutputFields.shown selector fields) b.pass
  | _, _ => []

def filterRequests (b : Build) (entries : List Value) (place : FilterFields.Place)
    (given : Option Record) (path : Option String) : List Namer.Request :=
  match Example.ofEntries entries given, place with
  | .error _, _ => []
  | .ok fields, .nested stem =>
    FilterFields.requestsBelow (path.getD stem) stem fields b.pass.namer
  | .ok fields, .root name => match FilterFields.rootName entries name with
    | .error _ => []
    | .ok typeName => FilterFields.requestsBelow (path.getD typeName) typeName
      (fields.filter fun (key, _) => !FilterFields.excluded.contains key) b.pass.namer

/-- The requests of one step. Of a record type the name is reserved first. -/
def requests (b : Build) : NamingStep → List Namer.Request
  | .outputFields entries selector given => b.outputRequests entries selector given
  | .outputField value selector entries _ =>
    match if OutputFields.leadsToObject value then typeNameOf entries else .ok "" with
    | .error _ => []
    | .ok typeName => OutputFields.requests b.site typeName selector value b.pass
  | .recordType entries => match typeNameOf entries with
    | .error _ => []
    | .ok name => .reserve name :: (b.declareType name entries).outputRequests entries none none
  | .filterFields entries place given path => b.filterRequests entries place given path
  | .filterField value stem path => FilterFields.requests (path.getD stem) stem value b.pass.namer
  | .reserve name => [.reserve name]
  | .work _ => []

def requestsOfAll : Build → List NamingStep → List Namer.Request
  | _, [] => []
  | b, step :: rest => b.requests step ++ (b.perform step).requestsOfAll rest

section
variable (b : Build)

theorem namer_outputFields (entries : List Value) (selector : Option String)
    (given : Option Record) :
    (b.outputFields entries selector given).2.pass.namer =
      b.pass.namer.serveAll (b.outputRequests entries selector given) := by
  unfold outputFields outputRequests
  cases Example.ofEntries entries given with
  | error e => rfl
  | ok fields =>
    cases typeNameOf entries with
    | error e => rfl
    | ok typeName =>
      simp only
      rw [← OutputFields.namer_ofFields]
      cases selector <;> rfl

theorem namer_filterFields (entries : List Value) (place : FilterFields.Place)
    (given : Option Record) (path : Option String) :
    (b.filterFields entries place given path).2.pass.namer =
      b.pass.namer.serveAll (b.filterRequests entries place given path) := by
  unfold filterFields filterRequests FilterFields.ofEntries
  cases Example.ofEntries entries given with
  | error e => cases place <;> rfl
  | ok fields =>
    cases place with
    | nested stem =>
      simp only
      rw [← FilterFields.namer_ofFields]
      rfl
    | root name =>
      cases named : FilterFields.rootName entries name with
      | error e =>
        simp only [named]
        rfl
      | ok typeName =>
        simp only [named]
        rw [← FilterFields.namer_ofFields]
        rfl

/-- A step does to the names what its requests do. -/
theorem namer_perform (step : NamingStep) :
    (b.perform step).pass.namer = b.pass.namer.serveAll (b.requests step) := by
  cases step with
  | outputFields entries selector given => exact b.namer_outputFields entries selector given
  | outputField value selector entries fieldName =>
    rw [perform, outputField, requests]
    cases if OutputFields.leadsToObject value then typeNameOf entries else .ok "" with
    | error e => rfl
    | ok typeName => exact OutputFields.namer_ofValue b.site typeName selector _ value b.pass
  | recordType entries =>
    rw [perform, recordType, requests]
    cases typeNameOf entries with
    | error e => rfl
    | ok name =>
      have law := (b.declareType name entries).namer_outputFields entries none none
      simp only
      rcases called : (b.declareType name entries).outputFields entries none none with
        ⟨_ | _, after⟩ <;> rw [called] at law <;> exact law
  | filterFields entries place given path => exact b.namer_filterFields entries place given path
  | filterField value stem path =>
    exact FilterFields.namer_ofValue (path.getD stem) stem value b.pass.namer
  | reserve name => rfl
  | work site => rfl

theorem namer_performAll (steps : List NamingStep) :
    (b.performAll steps).pass.namer = b.pass.namer.serveAll (b.requestsOfAll steps) := by
  induction steps generalizing b with
  | nil => rfl
  | cons step rest ih =>
    rw [requestsOfAll, Namer.serveAll_append, ← b.namer_perform step]
    exact ih (b.perform step)

/-- A name is asked for an object type, or for a filter input with an ending. -/
theorem isRequest_of_mem_requests {step : NamingStep} {selector base : String}
    (h : .nameFor selector (some base) ∈ b.requests step) :
    FilterFields.IsRequest (.nameFor selector (some base)) := by
  have output (b : Build) {entries : List Value} {path : Option String} {given : Option Record}
      (h : .nameFor selector (some base) ∈ b.outputRequests entries path given) : False := by
    unfold outputRequests at h
    split at h
    · obtain ⟨s, heq⟩ := OutputFields.eq_of_mem_requestsBelow _ _ _ _ _ h
      cases heq
    · cases h
  cases step with
  | outputFields entries path given => exact (output b h).elim
  | outputField value path entries fieldName =>
    rw [requests] at h
    split at h
    · cases h
    · obtain ⟨s, heq⟩ := OutputFields.eq_of_mem_requests _ _ _ _ _ h
      cases heq
  | recordType entries =>
    rw [requests] at h
    split at h
    · cases h
    · rcases List.mem_cons.mp h with heq | h
      · cases heq
      · exact (output _ h).elim
  | filterFields entries place given path =>
    rw [requests] at h
    unfold filterRequests at h
    split at h
    · cases h
    · exact FilterFields.isRequest_of_mem_requestsBelow _ _ _ _ h
    · split at h
      · cases h
      · exact FilterFields.isRequest_of_mem_requestsBelow _ _ _ _ h
  | filterField value stem path => exact FilterFields.isRequest_of_mem_requests _ _ _ _ h
  | reserve name => cases List.mem_singleton.mp h
  | work site => cases h

theorem isRequest_of_mem_requestsOfAll {steps : List NamingStep} {selector base : String}
    (h : .nameFor selector (some base) ∈ b.requestsOfAll steps) :
    FilterFields.IsRequest (.nameFor selector (some base)) := by
  induction steps generalizing b with
  | nil => cases h
  | cons step rest ih =>
    rcases List.mem_append.mp h with h | h
    · exact b.isRequest_of_mem_requests h
    · exact ih (b.perform step) h

end
end Build
end ContentSchema
