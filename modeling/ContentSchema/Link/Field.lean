import ContentSchema.Link.Key
import ContentSchema.Link.Location
import ContentSchema.Link.Target
import ContentSchema.Record
import ContentSchema.Site
import ContentSchema.Warning

/-! The output fields of links, and why a link cannot be made. -/
namespace ContentSchema

/-- Why a field has no link. -/
inductive LinkFailure where
  | configuredType (selector : String) (e : UnknownType)
  | node (key : String) (sample : Value)
  | nodeType (key : String) (e : UnknownType)
  | fileType (key : String) (e : UnknownType)
  /-- A sequence has no member to follow. -/
  | noSample (className : String)
  | store (e : StoreFault)
  | location (e : Url.Error)

namespace LinkFailure

def category : LinkFailure → Warning.Category
  | configuredType _ _ | nodeType _ _ | fileType _ _ => .missingType
  | node _ _ => .missingNode
  | noSample _ | store _ | location _ => .fieldError

private def fieldError (reason : String) : String := "Could not infer field: " ++ reason

def message : LinkFailure → String
  | configuredType selector e =>
    "Couldn't find a matching node type for \"" ++ selector ++ "\" (" ++ e.message ++ ")"
  | node key sample =>
    "Couldn't find a node linked from \"" ++ key ++ "\" with value " ++ sample.literal
  | nodeType key e =>
    "Couldn't find a matching node type for \"" ++ key ++ "\" (" ++ e.message ++ ")"
  | fileType key e => "Couldn't link file path \"" ++ key ++ "\" (" ++ e.message ++ ")"
  | noSample className => fieldError (className ++ " index out of range")
  | store e => fieldError e.text
  | location e => fieldError e.message

def warning (e : LinkFailure) (selector : String) : Warning := ⟨selector, e.message, e.category⟩

end LinkFailure

namespace OutputField

def plain (type : LinkedType) : OutputField := ⟨type, [], none⟩

/-- A field that leads to a registered record type, or to a list of its records. -/
def link (target : String) (isList : Bool) (resolver : Resolver) : OutputField :=
  ⟨if isList then .list (.link target) else .link target, [], some resolver⟩

end OutputField

namespace Site

def configuredLink (site : Site) (selector key target : String) (value : Value) :
    Except LinkFailure OutputField :=
  let isList := value.items?.isSome
  match site.registry.get target with
  | .ok _ => .ok (.link target isList (.mapping key target isList))
  | .error e => .error (.configuredType selector e)

/-- The value that stands for a link: the first one of a sequence. -/
def sample (value : Value) : Except LinkFailure Value :=
  match value.items? with
  | none => .ok value
  | some [] => .error (.noSample value.className)
  | some (first :: _) => .ok first

/-- The sample has to point at a record of a registered type. -/
def keyLink (site : Site) (key : String) (value : Value) : Except LinkFailure OutputField := do
  let isList := value.items?.isSome
  let linkedField := LinkKey.linkedField? key
  let first ← sample value
  match ← (site.store.linked? first linkedField).mapError .store with
  | none => throw (.node key first)
  | some r => match site.registry.get (Record.typeName r) with
    | .ok _ => return .link (Record.typeName r) isList (.node key linkedField isList)
    | .error e => throw (.nodeType key e)

def locationLink (site : Site) (key : String) : Except LinkFailure OutputField :=
  match site.registry.get fileType with
  | .ok _ => .ok (.link fileType false (.file key))
  | .error e => .error (.fileType key e)

end Site
end ContentSchema
