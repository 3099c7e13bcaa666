import ContentSchema.Json.Writer
import ContentSchema.Schema.Graph
import ContentSchema.Value.Equality

/-! Types written in the schema definition language. -/
namespace ContentSchema.Graph
variable {κ : Type} [DecidableEq κ]

/-- A default that has no text: bytes or a foreign value somewhere inside. -/
structure DefaultWithoutText where
  value : Value

/-- An enumeration member equal to the default stands for it; any other default is JSON text. -/
def defaultText (g : Graph κ) (type : SchemaType κ) (value : Value) :
    Except DefaultWithoutText String :=
  let member : Option (String × Value) := match g.definition? type with
    | some (.enum _ values) => values.find? fun entry => entry.2.same value
    | _ => none
  match member, Json.text? value with
  | some (name, _), _ => .ok name
  | none, some text => .ok text
  | none, none => .error ⟨value⟩

def outputLine (g : Graph κ) (name : String) (field : Field (SchemaType κ)) : String :=
  let args := field.args.map fun (argName, arg) => argName ++ ": " ++ g.reference arg.type
  let args := if args.isEmpty then "" else "(" ++ ", ".intercalate args ++ ")"
  "  " ++ name ++ args ++ ": " ++ g.reference field.type

def inputLine (g : Graph κ) (name : String) (field : InputField (SchemaType κ)) :
    Except DefaultWithoutText String := do
  let line := "  " ++ name ++ ": " ++ g.reference field.type
  if field.default.isNull then return line
  else return line ++ " = " ++ (← g.defaultText field.type field.default)

/-- A keyword and a name, then one indented line per member between braces. -/
def block (keyword name : String) (lines : List String) : String :=
  "\n".intercalate ((keyword ++ " " ++ name ++ " \x7b") :: lines ++ ["\x7d"])

def definitionText (g : Graph κ) : Definition (SchemaType κ) → Except DefaultWithoutText String
  | .object name fields =>
    .ok (block "type" name (fields.map fun (field, d) => g.outputLine field d))
  | .input name fields =>
    return block "input" name (← fields.mapM fun (field, d) => g.inputLine field d)
  | .enum name values => .ok (block "enum" name (values.map fun value => "  " ++ value.1))

/-- One type as it stands. Scalars and wrapped types are declared as scalars. -/
def typeText (g : Graph κ) : SchemaType κ → Except DefaultWithoutText String
  | .named d => g.definitionText d
  | .link key => match g.get? key with
    | some d => g.definitionText d
    | none => .ok ""
  | t => .ok ("scalar " ++ g.reference t)

/-- Everything that the roots reach, in blocks with an empty line between them. -/
def text (g : Graph κ) (roots : List (SchemaType κ)) : Except DefaultWithoutText String := do
  return "\n\n".intercalate (← (g.collect roots).mapM g.definitionText)

end ContentSchema.Graph
