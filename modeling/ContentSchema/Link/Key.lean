import ContentSchema.Text.Split

/-! Field keys that name a link. -/
namespace ContentSchema.LinkKey

def separator : List Char := ['_', '_', '_']

/-- What makes a key a link key, wherever it stands. -/
def marker : List Char := separator ++ ['N', 'O', 'D', 'E']

def isLink (key : String) : Bool := Text.occursIn marker key.toList

/-- The parts of a key between separators. -/
def parts (key : String) : List String := (Text.splitAt separator key.toList).map String.ofList

/-- The first part of a key. -/
def base (key : String) : String := (parts key).headD ""

/-- The name under which a field appears: a link key loses its marker and what follows. -/
def clean (key : String) : String := if isLink key then base key else key

/-- The field of the linked record that has to match: the third part, unless it is empty. -/
def linkedField? (key : String) : Option String :=
  (parts key)[2]?.filter fun part => !part.isEmpty

end ContentSchema.LinkKey
