import ContentSchema.FilterFields
import ContentSchema.OutputFields
import ContentSchema.Resolution
import ContentSchema.Text.Split

/-! One pass of building a schema over a store of records. -/
namespace ContentSchema

/-- Everything that a pass works on. Later passes share the site and the dependencies. -/
structure Build where
  site : Site
  dependencies : Dependencies
  now : Calendar.DateTime
  pass : Pass

namespace Build

/-- A first pass over a store. -/
def start (store : Store) (config : Configuration) (now : Calendar.DateTime)
    (convention : MediaType.Convention := .url) : Build :=
  ⟨⟨store, .empty, config, convention⟩, [], now, ⟨.empty, []⟩⟩

/-- A further pass: no warnings, and of the names only those of the registered record types. -/
def next (b : Build) : Build :=
  { b with pass := ⟨b.site.registry.names.foldl Namer.reserve .empty, []⟩ }

def warn (b : Build) (w : Warning) : Build :=
  { b with pass := (Inference.warn w b.pass).2 }

def setNamer (b : Build) (namer : Namer) : Build :=
  { b with pass := { b.pass with namer := namer } }

def setRegistry (b : Build) (registry : Registry) : Build :=
  { b with site := { b.site with registry := registry } }

def addEntry (b : Build) (entry : Value) : Except Refusal Build :=
  (b.site.store.addEntry entry).map fun store => { b with site := { b.site with store := store } }

/-- Infer the fields of a record type or of a nested object. -/
def outputFields (b : Build) (entries : List Value) (selector : Option String)
    (given : Option Record) : Except NotRecord (Dictionary OutputField) × Build :=
  match Example.ofEntries entries given, typeNameOf entries with
  | .ok fields, .ok typeName =>
    let (found, pass) := OutputFields.ofExample b.site typeName selector fields b.pass
    (.ok found, { b with pass := pass })
  | .error e, _ => (.error e, b)
  | _, .error e => (.error e, b)

/-- Infer the field of one example. Its name is the last segment of the selector unless it is
given. -/
def outputField (b : Build) (value : Value) (selector : String) (entries : List Value)
    (fieldName : Option String) : Except NotRecord (Option OutputField) × Build :=
  let segments := Text.splitAt ['.'] selector.toList
  let name := fieldName.getD (String.ofList (segments.getLastD []))
  match if OutputFields.leadsToObject value then typeNameOf entries else .ok "" with
  | .error e => (.error e, b)
  | .ok typeName =>
    let (field, pass) := OutputFields.ofValue b.site typeName selector name value b.pass
    (.ok field, { b with pass := pass })

/-- Register the type that some records share, without fields: of a type that is registered already
the fields go away. -/
def declareType (b : Build) (name : String) (entries : List Value) : Build :=
  let b := b.setNamer (b.pass.namer.reserve name)
  b.setRegistry (b.site.registry.put name ⟨entries, []⟩)

/-- Build the object type that some records share and register it. It is registered without fields
first, so that records can link to their own type, and stays so when an entry is no record. -/
def recordType (b : Build) (entries : List Value) : Except NotRecord String × Build :=
  match typeNameOf entries with
  | .error e => (.error e, b)
  | .ok name =>
    match (b.declareType name entries).outputFields entries none none with
    | (.error e, b) => (.error e, b)
    | (.ok fields, b) =>
      (.ok name, b.setRegistry (b.site.registry.put name ⟨entries, fields⟩))

/-- Infer the filters of a record type or of a nested object. -/
def filterFields (b : Build) (entries : List Value) (place : FilterFields.Place)
    (given : Option Record) (path : Option String) :
    Except NotRecord (Dictionary FilterField) × Build :=
  let (fields, namer) := (FilterFields.ofEntries entries place given path).run b.pass.namer
  (fields, b.setNamer namer)

/-- Infer the filter of one example. -/
def filterField (b : Build) (value : Value) (stem : String) (path : Option String) :
    Option FilterField × Build :=
  let (field, namer) := FilterFields.ofValue (path.getD stem) stem value b.pass.namer
  (field, b.setNamer namer)

/-- Read a field of a record, recording dependencies for a path. -/
def resolve (b : Build) (resolver : Resolver) (source : Record) (args : Value)
    (path : Option String) : Except ResolveError Value × Build :=
  let query : Query := ⟨b.site.store, b.now, path⟩
  let (outcome, dependencies) := (query.resolve source args resolver).run b.dependencies
  (outcome, { b with dependencies := dependencies })

end Build
end ContentSchema
