/-! Absolute paths with forward slashes. -/
namespace ContentSchema.Path

/-- Exactly two leading slashes are kept as two, any other number as one. -/
def root : List Char → List Char
  | '/' :: '/' :: '/' :: _ => ['/']
  | '/' :: '/' :: _ => ['/', '/']
  | _ => ['/']

/-- Follow one segment from a stack of segments, the innermost first. A step up from the root stays
there. -/
def enter (stack : List (List Char)) (segment : List Char) : List (List Char) :=
  if segment = [] ∨ segment = ['.'] then stack
  else if segment = ['.', '.'] then stack.drop 1
  else segment :: stack

/-- The segments that remain of a path read from the root. -/
def segments (path : List Char) : List (List Char) :=
  ((path.splitOnP (· == '/')).foldl enter []).reverse

def normal (path : List Char) : List Char := root path ++ ['/'].intercalate (segments path)

/-- A second path that starts with a slash replaces the first. -/
def join (directory relative : List Char) : List Char :=
  if relative.head? = some '/' then relative
  else if directory.isEmpty || directory.getLast? = some '/' then directory ++ relative
  else directory ++ '/' :: relative

def slashed (path : List Char) : List Char := path.map fun c => if c == '\\' then '/' else c

/-- The absolute path of a path relative to a directory. The joined path is made normal once before
and once after backslashes become slashes. -/
def resolve (directory relative : String) : String :=
  String.ofList (normal (slashed (normal (join directory.toList relative.toList))))

end ContentSchema.Path
