import ContentSchema.Example
import ContentSchema.TypeName

/-! The enumeration of sortable field paths of a record type. -/
namespace ContentSchema.SortFields

/-- How deep a path may reach. -/
def maxDepth : Nat := 3

/-- The leaf paths of an example, in order. Mappings that are not empty are descended into while
levels remain; anything else is a leaf. -/
def leaves : (levels : Nat) → (path : List String) → Record → List (List String)
  | 0, _, _ => []
  | level + 1, path, fields => fields.flatMap fun (key, child) =>
    match child with
    | .mapping (field :: rest) =>
      if level = 0 then [path ++ [key]] else leaves level (path ++ [key]) (field :: rest)
    | _ => [path ++ [key]]

/-- The enumeration name of a path: its keys joined, each character that a name may not hold
replaced, and a leading digit guarded. -/
def enumName (path : List String) : String :=
  let joined := ("___".intercalate path).toList
  String.ofList (TypeName.guardDigit (joined.map fun c => if TypeName.isNameChar c then c else '_'))

/-- Enumeration names with their dotted paths. Of paths with the same name the first one stays. -/
def ofRecords (records : List Record) : Dictionary String :=
  (leaves maxDepth [] (Example.ofRecords records)).foldl
    (fun d path => Dictionary.putNew d (enumName path) (".".intercalate path)) []

end ContentSchema.SortFields
