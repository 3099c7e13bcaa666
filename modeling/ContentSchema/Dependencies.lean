import ContentSchema.Store

/-! Which records the answer at a path depends on. -/
namespace ContentSchema

/-- The identifiers recorded for each path; of those that are alike the first stays. -/
abbrev Dependencies := Dictionary (List Value)

namespace Dependencies

/-- Make a path known. -/
def addPath (d : Dependencies) (path : String) : Dependencies := Dictionary.putNew d path []

def idsFor (d : Dependencies) (path : String) : List Value := (Dictionary.get? d path).getD []

/-- Record an identifier. The path becomes known even when the identifier is refused. -/
def add (d : Dependencies) (path : String) (id : Value) : Except Unhashable Unit × Dependencies :=
  let d := addPath d path
  if id.isHashable then
    let ids := idsFor d path
    (.ok (), if ids.any id.alike then d else Dictionary.put d path (ids ++ [id]))
  else (.error ⟨id⟩, d)

def paths (d : Dependencies) : List String := Dictionary.keys d

end Dependencies
end ContentSchema
