/-! How the fields of a schema find their values. -/
namespace ContentSchema

/-- What a field does with the record it is read from. Fields without a resolver hold their value
themselves. -/
inductive Resolver where
  /-- Reformat the date stored under a name. -/
  | date (fieldName : String)
  /-- Follow identifiers to records of a configured type. -/
  | mapping (fieldKey targetType : String) (isList : Bool)
  /-- Follow identifiers, or values of the linked field, to records of any type. -/
  | node (fieldKey : String) (linkedField : Option String) (isList : Bool)
  /-- Follow a path relative to the file that the record comes from. -/
  | file (fieldKey : String)
deriving DecidableEq

end ContentSchema
