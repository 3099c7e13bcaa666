import ContentSchema.Value
import ContentSchema.Calendar.Reading

/-! The kinds of values that schema inference tells apart. -/
namespace ContentSchema

inductive Kind where
  | null | boolean | text | date | integer | float | list | object | unknown
deriving DecidableEq

namespace Kind

def name : Kind → String
  | null => "null"
  | boolean => "boolean"
  | text => "string"
  | date => "date"
  | integer => "integer"
  | float => "float"
  | list => "list"
  | object => "object"
  | unknown => "unknown"

def all : List Kind := [null, boolean, text, date, integer, float, list, object, unknown]

def ofName? (s : String) : Option Kind := all.find? fun k => k.name == s

/-- A single value, not a container and not missing. -/
def isScalar : Kind → Bool
  | boolean | text | date | integer | float => true
  | null | list | object | unknown => false

end Kind

/-- The kind of a value. A floating point number without a fraction is an integer. Texts that are
dates form a kind of their own only when dates are asked for. -/
def Value.kind (detectDates : Bool) : Value → Kind
  | .null => .null
  | .bool _ => .boolean
  | .text s => if detectDates && Calendar.isIsoDate s then .date else .text
  | .int _ => .integer
  | .float x => if x.isInteger then .integer else .float
  | .list _ => .list
  | .tuple _ => .list
  | .mapping _ => .object
  | .bytes _ => .unknown
  | .foreign _ _ => .unknown

/-- The date and time of a value by the first format that matches it. Only texts are dates. -/
def Value.readStrict (formats : List String) :
    Value → Except Calendar.FormatError (Option Calendar.DateTime)
  | .text s => Calendar.readStrict formats s
  | _ => .ok none

end ContentSchema
