import ContentSchema.Dictionary
import ContentSchema.Number.Binary64

/-! Loosely typed field values of content records. -/
namespace ContentSchema

/-- A field value. Lists and tuples are sequences of two kinds that never compare equal; a foreign
value is an object of which the library knows a name, and a mark that tells it from the others of
that name. -/
inductive Value where
  | null
  | bool (b : Bool)
  | int (n : Int)
  | float (x : Binary64)
  | text (s : String)
  | bytes (content : List UInt8)
  | list (items : List Value)
  | tuple (items : List Value)
  | mapping (fields : List (String × Value))
  | foreign (name : String) (mark : Nat)
deriving Inhabited

/-- A record: its fields in order. -/
abbrev Record := Dictionary Value

/-- The value of a field; an absent field reads as null. -/
def Record.get (r : Record) (key : String) : Value := (Dictionary.get? r key).getD .null

/-- The identifier of a record, null when it has none. -/
def Record.id (r : Record) : Value := Record.get r "id"

namespace Value

def isNull : Value → Bool
  | .null => true
  | _ => false

/-- Null, false, zero and everything empty count as missing. -/
def isTruthy : Value → Bool
  | .null => false
  | .bool b => b
  | .int n => n != 0
  | .float x => !x.isZero
  | .text s => !s.isEmpty
  | .bytes content => !content.isEmpty
  | .list items => !items.isEmpty
  | .tuple items => !items.isEmpty
  | .mapping fields => !fields.isEmpty
  | .foreign _ _ => true

mutual
/-- Values that may serve as keys: no list or mapping anywhere inside. -/
def isHashable : Value → Bool
  | .list _ => false
  | .mapping _ => false
  | .tuple items => allHashable items
  | _ => true
def allHashable : List Value → Bool
  | [] => true
  | v :: rest => isHashable v && allHashable rest
end

/-- The members of a sequence. -/
def items? : Value → Option (List Value)
  | .list items => some items
  | .tuple items => some items
  | _ => none

/-- The fields of a mapping. -/
def fields? : Value → Option Record
  | .mapping fields => some fields
  | _ => none

end Value
end ContentSchema
