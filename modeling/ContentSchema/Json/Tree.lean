import ContentSchema.Value.Literal

/-! JSON data as it is read. Its texts are code points, since an escape can write a surrogate that
stands alone, and no `String` holds one. -/
namespace ContentSchema.Json

/-- Code points, surrogates among them. -/
abbrev Points := List Nat

def pointsOf (s : String) : Points := s.toList.map Char.toNat

/-- The text of code points. A surrogate is replaced. -/
def textOf (s : Points) : String :=
  String.ofList (s.map fun p => Char.ofNat (if 0xD800 ≤ p ∧ p < 0xE000 then 0xFFFD else p))

/-- JSON data. Objects hold each key once. -/
inductive Tree where
  | null
  | bool (b : Bool)
  | whole (n : Int)
  | number (x : Binary64)
  | text (s : Points)
  | array (items : List Tree)
  | object (fields : List (Points × Tree))

namespace Tree

mutual
/-- The value that data stands for. -/
def toValue : Tree → Value
  | .null => .null
  | .bool b => .bool b
  | .whole n => .int n
  | .number x => .float x
  | .text s => .text (textOf s)
  | .array items => .list (toValues items)
  | .object fields => .mapping (Dictionary.ofList (toFields fields))
def toValues : List Tree → List Value
  | [] => []
  | t :: rest => toValue t :: toValues rest
def toFields : List (Points × Tree) → List (String × Value)
  | [] => []
  | (k, t) :: rest => (textOf k, toValue t) :: toFields rest
end

mutual
/-- The literal of the value, in which surrogates are still written as what they are. -/
def literal : Tree → String
  | .text s => Text.quotedPoints s
  | .array items => "[" ++ ", ".intercalate (literals items) ++ "]"
  | .object fields => "\x7b" ++ ", ".intercalate (fieldLiterals fields) ++ "\x7d"
  | t => t.toValue.literal
def literals : List Tree → List String
  | [] => []
  | t :: rest => literal t :: literals rest
def fieldLiterals : List (Points × Tree) → List String
  | [] => []
  | (k, t) :: rest => (Text.quotedPoints k ++ ": " ++ literal t) :: fieldLiterals rest
end

/-- A text stands for itself; any other data is written as a literal. -/
def display : Tree → String
  | .text s => textOf s
  | t => t.literal

/-- The members of an object as texts. -/
def entries? : Tree → Option (Dictionary String)
  | .object fields => some (Dictionary.ofList (fields.map fun (k, t) => (textOf k, t.display)))
  | _ => none

end Tree
end ContentSchema.Json
