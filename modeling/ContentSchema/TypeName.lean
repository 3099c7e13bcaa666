import ContentSchema.Text.Case

/-! Type names made from dotted selectors. -/
namespace ContentSchema.TypeName

/-- The characters a type name may hold: ASCII letters, digits and the underscore. -/
def isNameChar (c : Char) : Bool := c.isAlphanum || c == '_'

/-- The maximal runs of name characters. -/
def words (cs : List Char) : List (List Char) :=
  (cs.splitOnP fun c => !isNameChar c).filter fun w => !w.isEmpty

/-- An underscore keeps a name from starting with a digit. -/
def guardDigit : List Char → List Char
  | [] => []
  | c :: rest => if c.isDigit then '_' :: c :: rest else c :: rest

def ofChars (cs : List Char) : List Char :=
  match (words cs).flatMap Text.capitalised with
  | [] => ['T', 'y', 'p', 'e']
  | name => guardDigit name

/-- Join the words of a selector, each with a capital first letter. -/
def ofSelector (selector : String) : String := String.ofList (ofChars selector.toList)

end ContentSchema.TypeName
