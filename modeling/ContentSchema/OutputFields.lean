import ContentSchema.Example
import ContentSchema.Link.Field
import ContentSchema.Link.Strategy
import ContentSchema.Namer

/-! Output fields inferred from examples. -/
namespace ContentSchema

/-- What inference leaves behind: the names given away, and warnings in their order. -/
structure Pass where
  namer : Namer
  warnings : List Warning

abbrev Inference := StateM Pass

namespace Inference

def warn (w : Warning) : Inference Unit :=
  modify fun pass => { pass with warnings := pass.warnings ++ [w] }

def nameFor (selector : String) : Inference String := do
  let pass ← get
  let (name, namer) := pass.namer.nameFor selector none
  set { pass with namer := namer }
  return name

end Inference

namespace OutputFields

/-- Keys of every record, which are not fields of its type. -/
def excluded : List String := ["type", "id", "parent", "children"]

/-- Dates can be reformatted. -/
def dateArguments : List (String × Argument LinkedType) :=
  [("formatString", ⟨.scalar .string,
      some "Format the date using moment-style tokens, e.g. \"YYYY-MM-DD\"", .null⟩),
   ("fromNow", ⟨.scalar .boolean,
      some "Returns a string describing the date relative to now, e.g. \"3 days ago\"", .null⟩),
   ("difference", ⟨.scalar .string,
      some ("Returns the difference between this date and the current time. " ++
        "Defaults to milliseconds but you can also pass in as the measurement " ++
        "years, months, weeks, days, hours, minutes, and seconds."), .null⟩)]

/-- The selector of a key below a selector, which is empty at the root of a record. -/
def childSelector (selector key : String) : String :=
  if selector.isEmpty then key else selector ++ "." ++ key

/-- The field of a single value. -/
def scalarField? (fieldName : String) (v : Value) : Option OutputField :=
  match v.kind true with
  | .date => some ⟨.scalar .string, dateArguments, some (.date fieldName)⟩
  | kind => (Scalar.ofKind? kind).map fun s => .plain (.scalar s)

mutual
/-- The field of an example. A list is typed by its first member; what cannot be typed has no
field. -/
def ofValue (site : Site) (typeName selector fieldName : String) :
    Value → Inference (Option OutputField)
  | .list (head :: _) =>
    return (← ofValue site typeName selector fieldName head).map fun f => .plain (.list f.type)
  | .tuple (head :: _) =>
    return (← ofValue site typeName selector fieldName head).map fun f => .plain (.list f.type)
  | .list [] => return none
  | .tuple [] => return none
  | .mapping fields => do
    let found ← ofFields site typeName selector fields
    if found.isEmpty then return none
    let name ← Inference.nameFor (typeName ++ "." ++ selector)
    return some (.plain (.named (.object name (Dictionary.ofList found))))
  | v => return scalarField? fieldName v
/-- The fields of a mapping, under their names. A field that cannot be inferred leaves at most a
warning. -/
def ofFields (site : Site) (typeName selector : String) :
    List (String × Value) → Inference (List (String × OutputField))
  | [] => return []
  | (key, v) :: rest => do
    let inner := childSelector selector key
    let qualified := typeName ++ "." ++ inner
    let found : Except LinkFailure (Option (String × OutputField)) ←
      match Strategy.choose site.convention site.config typeName qualified key v with
      | .error e => pure (.error (.location e))
      | .ok (.configured target) =>
        pure ((site.configuredLink qualified key target v).map fun f => some (key, f))
      | .ok .byKey => pure ((site.keyLink key v).map fun f => some (LinkKey.clean key, f))
      | .ok .byLocation => pure ((site.locationLink key).map fun f => some (key, f))
      | .ok .byShape => do
        let f ← ofValue site typeName inner key v
        pure (.ok (f.map fun f => (key, f)))
    match found with
    | .error e =>
      Inference.warn (e.warning qualified)
      ofFields site typeName selector rest
    | .ok none => ofFields site typeName selector rest
    | .ok (some field) => return field :: (← ofFields site typeName selector rest)
end

/-- The fields of a record type by its example, or of a nested object when a selector is given. -/
def ofExample (site : Site) (typeName : String) (selector : Option String) (fields : Record) :
    Inference (Dictionary OutputField) := do
  let fields := match selector with
    | none => fields.filter fun (key, _) => !excluded.contains key
    | some _ => fields
  return Dictionary.ofList (← ofFields site typeName (selector.getD "") fields)

/-- Whether a value is an object, or a sequence whose first member leads to one. Only such a value
has a field with a type of its own, whose name begins with the record type. -/
def leadsToObject : Value → Bool
  | .mapping _ => true
  | .list (head :: _) => leadsToObject head
  | .tuple (head :: _) => leadsToObject head
  | _ => false

end OutputFields
end ContentSchema
