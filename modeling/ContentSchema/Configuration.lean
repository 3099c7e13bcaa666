import ContentSchema.Json.Reader

/-! Site configuration: links from field selectors to record types. -/
namespace ContentSchema

structure Configuration where
  /-- The record type for each fully qualified field selector. -/
  mapping : Dictionary String

inductive ConfigurationError where
  | notFound (path : String)
  | malformed (path : String)
  /-- A whole number has too many digits to be read. -/
  | wholeTooLong (digits : Nat)
  | rootNotObject (path : String)
  | mappingNotObject (className : String)
  /-- The data has a value but no members. -/
  | withoutMembers

namespace ConfigurationError

def message : ConfigurationError → String
  | notFound path => "Config file not found: " ++ path
  | malformed path => "Invalid JSON in " ++ path
  | wholeTooLong digits =>
    "Exceeds the limit (" ++ toString Json.digitLimit ++
      " digits) for integer string conversion: value has " ++ toString digits ++
      " digits; use sys.set_int_max_str_digits() to increase the limit"
  | rootNotObject path => "Config root in " ++ path ++ " must be an object"
  | mappingNotObject className => "'mapping' must be an object, got " ++ className
  | withoutMembers => ""

end ConfigurationError

namespace Configuration

def empty : Configuration := ⟨[]⟩

/-- A mapping that counts as missing is empty; any other has to have entries. -/
def ofMapping (mapping : Value) (entries : Option (Dictionary String)) :
    Except ConfigurationError Configuration :=
  if mapping.isTruthy then
    match entries with
    | some entries => .ok ⟨entries⟩
    | none => .error (.mappingNotObject mapping.className)
  else .ok empty

/-- The fields of a value, each as a text. -/
def entries? (v : Value) : Option (Dictionary String) :=
  v.fields?.map fun fields => fields.map fun (key, v) => (key, v.display)

/-- Data that counts as missing configures nothing, and so does data without a mapping. -/
def ofValue (data : Value) : Except ConfigurationError Configuration :=
  if data.isTruthy then
    match data.fields? with
    | some fields =>
      let mapping := Record.get fields "mapping"
      ofMapping mapping (entries? mapping)
    | none => .error .withoutMembers
  else .ok empty

/-- Read the configuration file of a path, given its content if it exists. -/
def load (path : String) (content : Option String) : Except ConfigurationError Configuration :=
  match content with
  | none => .error (.notFound path)
  | some text => match Json.read text with
    | .error .malformed => .error (.malformed path)
    | .error (.wholeTooLong digits) => .error (.wholeTooLong digits)
    | .ok (.object fields) => match Dictionary.get? fields (Json.pointsOf "mapping") with
      | some mapping => ofMapping mapping.toValue mapping.entries?
      | none => .ok empty
    | .ok _ => .error (.rootNotObject path)

end Configuration
end ContentSchema
