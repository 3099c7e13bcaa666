import ContentSchema.Configuration
import ContentSchema.Link.Key
import ContentSchema.Link.Location
import ContentSchema.Record

/-! Which fields are links. -/
namespace ContentSchema

/-- What decides on the output field of a key. -/
inductive Strategy where
  /-- The configuration names a record type for the selector. -/
  | configured (target : String)
  /-- The key follows the naming convention of links. -/
  | byKey
  /-- The example is a relative path to a file. -/
  | byLocation
  /-- The shape of the example. -/
  | byShape
deriving DecidableEq

/-- The strategies in their order. Fields of files are never taken for paths. -/
def Strategy.choose (convention : MediaType.Convention) (config : Configuration)
    (typeName selector key : String) (value : Value) : Except Url.Error Strategy :=
  match Dictionary.get? config.mapping selector with
  | some target => .ok (.configured target)
  | none =>
    if LinkKey.isLink key then .ok .byKey
    else if typeName == fileType then .ok .byShape
    else return if ← Location.isFilePath convention value then .byLocation else .byShape

end ContentSchema
