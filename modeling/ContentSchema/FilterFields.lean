import ContentSchema.Link.Key
import ContentSchema.Namer
import ContentSchema.Record
import ContentSchema.Registry
import ContentSchema.SortFields

/-! Filter and sort inputs inferred from examples. -/
namespace ContentSchema

abbrev FilterField := InputField LinkedType

namespace FilterFields

/-- Keys that lead to other records. -/
def excluded : List String := ["parent", "children"]

def plain (type : LinkedType) : FilterField := ⟨type, .null⟩

/-- The comparisons with a single value of a kind. -/
def operators (kind : Kind) : Dictionary FilterField :=
  match Scalar.ofKind? kind with
  | none => []
  | some s =>
    let operand := plain (.scalar s)
    let patterns := if s = .string then [("regex", operand), ("glob", operand)] else []
    [("eq", operand), ("ne", operand)] ++ patterns

/-- How the name of an input type ends, by the scalar that it compares. -/
def ending : Scalar → String
  | .boolean => "QueryBoolean"
  | .string => "QueryString"
  | .int => "QueryNumber"
  | .float => "QueryFloat"

/-- The name of the input type at a path. The stem, not the path, makes the name. -/
def nameAt (path stem ending : String) : StateM Namer String := do
  let (name, namer) := (← get).nameFor (path ++ ":" ++ ending) (some (stem ++ ending))
  set namer
  return name

def input (name : String) (fields : Dictionary FilterField) : FilterField :=
  plain (.named (.input name fields))

/-- The kind of an example; filters treat dates as texts. -/
def kindOf (v : Value) : Kind := v.kind false

/-- The filter of a value that is neither a container nor missing. -/
def ofScalar (path stem : String) (v : Value) : StateM Namer (Option FilterField) :=
  match Scalar.ofKind? (kindOf v) with
  | none => return none
  | some s => return some (input (← nameAt path stem (ending s)) (operators (kindOf v)))

/-- The filter of a list, by its first member and the way to build a filter for it. The list takes
its name before the type of its members does. -/
def ofList (path stem : String) (head : Value) (inner : StateM Namer (Option FilterField)) :
    StateM Namer (Option FilterField) :=
  match Scalar.ofKind? (kindOf head) with
  | some s => do
    let name ← nameAt path stem "QueryList"
    return some (input name (operators (kindOf head) ++ [("in", plain (.list (.scalar s)))]))
  | none =>
    if kindOf head = .list ∨ kindOf head = .object then do
      let name ← nameAt path stem "QueryList"
      return (← inner).map fun field => input name [("in", plain (.list field.type))]
    else return none

mutual
/-- The filter of an example. What cannot be compared has none. -/
def ofValue (path stem : String) : Value → StateM Namer (Option FilterField)
  | .list (head :: _) => ofList path stem head (ofValue (path ++ "[]") stem head)
  | .tuple (head :: _) => ofList path stem head (ofValue (path ++ "[]") stem head)
  | .mapping fields => do
    let found ← ofFields path stem fields
    if found.isEmpty then return none
    return some (input (← nameAt path stem "InputObject") found)
  | v => ofScalar path stem v
def ofFields (path stem : String) :
    List (String × Value) → StateM Namer (Dictionary FilterField)
  | [] => return []
  | (key, v) :: rest => do
    let found ← ofValue (path ++ "." ++ key) (stem ++ Text.capitalFirst (LinkKey.clean key)) v
    let others ← ofFields path stem rest
    return match found with
      | some field => (key, field) :: others
      | none => others
end

/-- The sort input of a record type, if its records have anything to sort by. -/
def sortField (nodes : List Record) (typeName : String) : Option FilterField :=
  let paths := SortFields.ofRecords nodes
  if paths.isEmpty then none
  else
    let members := paths.map fun (name, path) => (name, Value.text path)
    let fieldsEnum : LinkedType := .named (.enum (typeName ++ "SortByFieldsEnum") members)
    let orderEnum : LinkedType := .named (.enum (Text.smallFirst typeName ++ "SortOrderValues")
      [("ASC", .text "asc"), ("DESC", .text "desc")])
    some (input (Text.smallFirst typeName ++ "SortBy")
      [("fields", plain (.nonNull (.list fieldsEnum))), ("order", ⟨orderEnum, .text "asc"⟩)])

/-- Where a filter input is built. -/
inductive Place where
  /-- The root of a record type, whose name may be given. -/
  | root (typeName : Option String)
  /-- A nested object, with the stem of its type names. -/
  | nested (stem : String)

/-- The name of the type that is filtered, which the records tell unless it is given. -/
def rootName (entries : List Value) (given : Option String) : Except NotRecord String :=
  match given with
  | some name => if name.isEmpty then typeNameOf entries else .ok name
  | none => typeNameOf entries

/-- The filters of a record type by its example. -/
def atRoot (typeName : String) (path : Option String) (fields : Record) :
    StateM Namer (Dictionary FilterField) :=
  ofFields (path.getD typeName) typeName (fields.filter fun (key, _) => !excluded.contains key)

/-- Add the sort input of a type that has a name. -/
def withSort (entries : List Value) (typeName : String) (fields : Dictionary FilterField) :
    Except NotRecord (Dictionary FilterField) :=
  if typeName.isEmpty then .ok fields
  else match Record.listOf entries with
    | .error e => .error e
    | .ok records => .ok (match sortField records typeName with
      | some sort => Dictionary.put fields "sortBy" sort
      | none => fields)

/-- The filters of a record type or of a nested object, under the keys of the records. The example
is merged from the records unless one is given, and the path is the stem unless one is given. Only
the root of a named type is sorted; names given away by then are kept even when it cannot be. -/
def ofEntries (entries : List Value) (place : Place) (given : Option Record)
    (path : Option String) : ExceptT NotRecord (StateM Namer) (Dictionary FilterField) := do
  let fields ← ExceptT.mk (pure (Example.ofEntries entries given))
  match place with
  | .nested stem => ofFields (path.getD stem) stem fields
  | .root given =>
    let typeName ← ExceptT.mk (pure (rootName entries given))
    let found ← atRoot typeName path fields
    ExceptT.mk (pure (withSort entries typeName found))

end FilterFields
end ContentSchema
