import ContentSchema.Schema.Graph

/-! The record types of a schema, in the order of their registration. -/
namespace ContentSchema

/-- A type whose links lead to registered record types. -/
abbrev LinkedType := SchemaType String

abbrev OutputField := Field LinkedType

/-- A record type: the entries that it was given as its records, and the fields of the object type
that is built for it. -/
structure RecordType where
  nodes : List Value
  fields : Dictionary OutputField

/-- Record types by name. A link holds the name, and so always shows the current fields. -/
structure Registry where
  types : Dictionary RecordType

structure UnknownType where
  name : String

def UnknownType.message (e : UnknownType) : String := "Type '" ++ e.name ++ "' not found"

/-- A type that has fields is not registered anew. -/
structure AlreadyDefined where
  name : String

def AlreadyDefined.message (e : AlreadyDefined) : String :=
  "Type '" ++ e.name ++ "' is already defined"

namespace Registry

def empty : Registry := ⟨[]⟩

def get? (r : Registry) (name : String) : Option RecordType := Dictionary.get? r.types name

def get (r : Registry) (name : String) : Except UnknownType RecordType :=
  match r.get? name with
  | some type => .ok type
  | none => .error ⟨name⟩

def has (r : Registry) (name : String) : Bool := (r.get? name).isSome

def names (r : Registry) : List String := Dictionary.keys r.types

def put (r : Registry) (name : String) (type : RecordType) : Registry :=
  ⟨Dictionary.put r.types name type⟩

/-- Registered, but without fields so far. -/
def isBare (r : Registry) (name : String) : Bool :=
  match r.get? name with
  | some type => type.fields.isEmpty
  | none => false

/-- Register a type without fields, so that others can link to it. A registered type that has no
fields yet stays as it is. -/
def declare (r : Registry) (name : String) (nodes : List Value) :
    Except AlreadyDefined (RecordType × Registry) :=
  match r.get? name with
  | some type => if type.fields.isEmpty then .ok (type, r) else .error ⟨name⟩
  | none => .ok (⟨nodes, []⟩, r.put name ⟨nodes, []⟩)

/-- The object types of the record types, under their names. -/
def graph (r : Registry) : Graph String :=
  r.types.map fun (name, type) => (name, .object name type.fields)

end Registry
end ContentSchema
