import ContentSchema.Record
import ContentSchema.Value.Equality

/-! The store of content records, with an index by identifier. -/
namespace ContentSchema

/-- A record in a store. The mark tells it from every other one that was ever added, also from an
equal one. -/
structure StoredRecord where
  mark : Nat
  record : Record

/-- Records in the order in which they were added, and each one that has an identifier under it. -/
structure Store where
  entries : List StoredRecord
  index : List (Value × StoredRecord)
  /-- How many records were added so far; the next one gets this mark. -/
  count : Nat
  /-- A store that is out of order answers every look-up with this text. -/
  fault : Option String

/-- A value that cannot serve as a key. -/
structure Unhashable where
  value : Value

/-- Why a store does not take an entry. -/
inductive Refusal where
  | notRecord (e : NotRecord)
  | unhashable (e : Unhashable)

/-- A look-up failed, for a reason of the store's own. -/
structure StoreFault where
  text : String

/-- A change of a store that may be refused on the way. What was changed before stays changed. -/
abbrev Store.Update := ExceptT Unhashable (StateM Store)

namespace Store

def empty : Store := ⟨[], [], 0, none⟩

def indexed? (index : List (Value × StoredRecord)) (id : Value) : Option StoredRecord :=
  match index with
  | [] => none
  | (key, e) :: rest => if key.alike id then some e else indexed? rest id

def indexPut (index : List (Value × StoredRecord)) (id : Value) (e : StoredRecord) :
    List (Value × StoredRecord) :=
  match index with
  | [] => [(id, e)]
  | (key, old) :: rest =>
    if key.alike id then (key, e) :: rest else (key, old) :: indexPut rest id e

/-- The record under an identifier, which has to be a possible key. -/
def lookUp (id : Value) : Update (Option StoredRecord) := do
  if id.isHashable then return indexed? (← get).index id else throw ⟨id⟩

/-- Put a record under an identifier, which has to be a possible key. -/
def enter (id : Value) (e : StoredRecord) : Update Unit := do
  if id.isHashable then modify fun s => { s with index := indexPut s.index id e } else throw ⟨id⟩

/-- Take one record out of the list. The index keeps it until another one gets its place. -/
def takeOut (e : StoredRecord) : Update Unit :=
  modify fun s => { s with entries := s.entries.filter fun other => other.mark != e.mark }

/-- Take out the record that the index has under an identifier. -/
def makeRoom (id : Value) : Update Unit := do
  match ← lookUp id with
  | some previous => takeOut previous
  | none => return

/-- Put a record at the end of the list. -/
def append (r : Record) : Update StoredRecord := do
  let s ← get
  let e : StoredRecord := ⟨s.count, r⟩
  set { s with entries := s.entries ++ [e], count := s.count + 1 }
  return e

/-- Add a record. The one that the index has under the same identifier goes away. -/
def insert (r : Record) : Update Unit := do
  let id := Record.id r
  if id.isNull then
    let _ ← append r
  else
    makeRoom id
    enter id (← append r)

/-- Whether a record was refused, and the store after that. -/
def attempt (s : Store) (r : Record) : Except Unhashable Unit × Store := (insert r).run.run s

def add (s : Store) (r : Record) : Except Unhashable Store :=
  match s.attempt r with
  | (.ok (), s) => .ok s
  | (.error e, _) => .error e

/-- Add an entry, which has to be a record. -/
def addEntry (s : Store) (entry : Value) : Except Refusal Store :=
  match Record.ofValue entry with
  | .error e => .error (.notRecord e)
  | .ok r => (s.add r).mapError .unhashable

def ofEntries (entries : List Value) : Except Refusal Store := entries.foldlM addEntry empty

/-- The records in the order in which they were added. -/
def records (s : Store) : List Record := s.entries.map StoredRecord.record

def size (s : Store) : Nat := s.entries.length

/-- The record with an identifier. Nothing is stored under null or a value that is no key. -/
def node? (s : Store) (id : Value) : Except StoreFault (Option Record) :=
  match s.fault with
  | some text => .error ⟨text⟩
  | none => .ok (if id.isHashable then (indexed? s.index id).map StoredRecord.record else none)

def nodes (s : Store) : Except StoreFault (List Record) :=
  match s.fault with
  | some text => .error ⟨text⟩
  | none => .ok s.records

/-- Whether a record has a type of this name. -/
def isOfType (type : String) (r : Record) : Bool := (Record.get r "type").same (.text type)

def nodesOfType (s : Store) (type : String) : List Record := s.records.filter (isOfType type)

end Store
end ContentSchema
