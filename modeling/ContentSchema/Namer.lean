import ContentSchema.Dictionary
import ContentSchema.TypeName

/-! Names handed out during one build. A selector always gets the same name; a name belongs to
one selector only. -/
namespace ContentSchema

structure Namer where
  /-- The name remembered for each selector. -/
  answers : Dictionary String
  /-- The selector that owns each name. -/
  owners : Dictionary String

namespace Namer

def empty : Namer := ⟨[], []⟩

def owns (n : Namer) (name : String) : Bool := Dictionary.has n.owners name

/-- Claim a name as it stands, so that generated names avoid it. -/
def reserve (n : Namer) (name : String) : Namer :=
  ⟨Dictionary.putNew n.answers name name, Dictionary.putNew n.owners name name⟩

def numbered (base : String) (k : Nat) : String := base ++ "_" ++ toString k

/-- The base itself, or the base with the least number from two on that nobody owns. One of as
many numbers as there are owned names, and one more, is free. -/
def freeName (n : Namer) (base : String) : String :=
  if n.owns base then
    let candidates := (List.range (n.owners.length + 1)).map fun i => numbered base (i + 2)
    (candidates.find? fun name => !n.owns name).getD base
  else base

/-- The name of a selector. A base, when given, takes the selector's place in making the name. -/
def nameFor (n : Namer) (selector : String) (base : Option String) : String × Namer :=
  match Dictionary.get? n.answers selector with
  | some name => (name, n)
  | none =>
    let name := n.freeName (TypeName.ofSelector (base.getD selector))
    (name, ⟨Dictionary.put n.answers selector name, Dictionary.put n.owners name selector⟩)

end Namer
end ContentSchema
