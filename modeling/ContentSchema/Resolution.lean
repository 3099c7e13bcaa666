import ContentSchema.Calendar.Difference
import ContentSchema.Calendar.Reading
import ContentSchema.Calendar.Rendering
import ContentSchema.Dependencies
import ContentSchema.Link.Target
import ContentSchema.Path
import ContentSchema.Record
import ContentSchema.Schema.Resolver

/-! Reading the field of a record through its resolver. -/
namespace ContentSchema

open Calendar (DateTime)

/-- What a resolver reads besides the record: the store, the time, and the path of the query whose
dependencies are recorded, if any. -/
structure Query where
  store : Store
  now : DateTime
  path : Option String

inductive ResolveError where
  | store (e : StoreFault)
  | dependency (e : Unhashable)
  /-- A value of this kind cannot be used here. -/
  | wrongKind (v : Value)
  /-- Arguments that are no mapping. -/
  | noArguments (v : Value)
  /-- A unit that is no text. -/
  | unitNotText (v : Value)
  /-- A format that is a sequence. -/
  | formatNotText (v : Value)
  | format (e : Calendar.FormatError)
  | year (e : Calendar.YearOutOfRange)

abbrev Resolving := ExceptT ResolveError (StateM Dependencies)

namespace Query

/-- Record that the answer at the path depends on a record, if both can be named. -/
def depend (query : Query) (r : Record) : Resolving Unit :=
  match query.path with
  | none => return ()
  | some path =>
    if (Record.id r).isNull then return ()
    else do
      let (outcome, dependencies) := (← getThe Dependencies).add path (Record.id r)
      set dependencies
      match outcome with
      | .ok () => return ()
      | .error e => throw (.dependency e)

/-- Pass a record on and record the dependency. -/
def found (query : Query) (r : Option Record) : Resolving (Option Record) := do
  match r with
  | some r => query.depend r
  | none => pure ()
  return r

def nodes (query : Query) : Resolving (List Record) :=
  match query.store.nodes with
  | .ok nodes => return nodes
  | .error e => throw (.store e)

/-- The first record of a type with an identifier; a missing identifier equals null. -/
def ofType (query : Query) (type : String) (id : Value) : Resolving (Option Record) := do
  return (← query.nodes).find? fun r => Store.isOfType type r && (Record.id r).same id

def mapped (query : Query) (type : String) (id : Value) : Resolving (Option Record) := do
  query.found (← query.ofType type id)

def linked (query : Query) (linkedField : Option String) (value : Value) :
    Resolving (Option Record) :=
  match query.store.linked? value linkedField with
  | .ok r => query.found r
  | .error e => throw (.store e)

/-- The members that a list link follows: of a sequence, the characters of a text, the keys of a
mapping, the numbers of bytes. -/
def members (v : Value) : Resolving (List Value) :=
  match v with
  | .list items => return items
  | .tuple items => return items
  | .text s => return s.toList.map fun c => .text (String.ofList [c])
  | .mapping fields => return fields.map fun field => .text field.1
  | .bytes content => return content.map fun b => .int b.toNat
  | v => throw (.wrongKind v)

/-- Follow one link, or each of a list of links; a list leaves out what is not found. -/
def follow (find : Value → Resolving (Option Record)) (isList : Bool) (v : Value) :
    Resolving Value := do
  if !v.isTruthy then return .null
  else if isList then
    return .list ((← (← members v).mapM find).reduceOption.map .mapping)
  else return match ← find v with
    | some r => .mapping r
    | none => .null

end Query

namespace DateArguments

/-- Write a date by a format argument. -/
def formatted (t : DateTime) (format : Value) : Resolving Value :=
  match format with
  | .text s => match t.format .binary64 s with
    | .ok text => return .text text
    | .error e => throw (.format e)
  | .tuple items =>
    if (Value.tuple items).isHashable then throw (.formatNotText format)
    else throw (.wrongKind format)
  | _ => throw (.wrongKind format)

/-- The unit of a difference argument. Bytes are never a spelling. -/
def unit (v : Value) : Resolving Calendar.Measure :=
  match v with
  | .text s => return .ofSpelling s
  | .bytes _ => return .millisecond
  | v => if v.isHashable then throw (.unitNotText v) else throw (.wrongKind v)

/-- A stored date as its arguments ask for it: a format comes before the time from now, and that
before a difference. Without arguments, or when it is no date, it stays as it is. -/
def apply (now : DateTime) (raw : Value) (args : Record) : Resolving Value := do
  let format := Record.get args "formatString"
  let fromNow := Record.get args "fromNow"
  let difference := Record.get args "difference"
  if !(format.isTruthy || fromNow.isTruthy || difference.isTruthy) then return raw
  let some t := (match raw with
    | .text s => Calendar.isoDate? s
    | _ => none) | return raw
  if format.isTruthy then formatted t format
  else if fromNow.isTruthy then return .text (Calendar.seenFrom .binary64 t now)
  else match Calendar.elapsed .binary64 now t (← unit difference) with
    | .ok n => return .int n
    | .error e => throw (.year e)

end DateArguments

namespace Query

/-- The file at a path relative to the file that is the parent of a record. -/
def fileAt (query : Query) (source : Record) (relative : String) : Resolving (Option Record) := do
  let some parent ← query.ofType fileType (Record.get source "parent") | return none
  let directory := Record.get parent "dir"
  if !directory.isTruthy then return none
  let .text directory := directory | throw (.wrongKind directory)
  let path := Value.text (Path.resolve directory relative)
  query.found ((← query.nodes).find? fun r =>
    Store.isOfType fileType r && (Record.get r "absolutePath").same path)

/-- The value that a resolver reads from a record. Only dates look at the arguments. -/
def resolve (query : Query) (source : Record) (args : Value) : Resolver → Resolving Value
  | .date fieldName =>
    match args.fields? with
    | some args => DateArguments.apply query.now (Record.get source fieldName) args
    | none => throw (.noArguments args)
  | .mapping key type isList => follow (query.mapped type) isList (Record.get source key)
  | .node key linkedField isList =>
    follow (query.linked linkedField) isList (Record.get source key)
  | .file key => do
    let .text relative := Record.get source key | return .null
    if relative.isEmpty then return .null
    return match ← query.fileAt source relative with
      | some r => .mapping r
      | none => .null

end Query
end ContentSchema
