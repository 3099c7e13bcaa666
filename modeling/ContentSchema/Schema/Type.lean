import ContentSchema.Schema.Resolver
import ContentSchema.Value.Kind

/-! The types of a query schema. -/
namespace ContentSchema

inductive Scalar where
  | boolean | string | int | float
deriving DecidableEq

namespace Scalar

def name : Scalar → String
  | boolean => "Boolean"
  | string => "String"
  | int => "Int"
  | float => "Float"

def all : List Scalar := [boolean, string, int, float]

def ofName? (s : String) : Option Scalar := all.find? fun scalar => scalar.name == s

/-- The scalar that holds values of a kind. Dates are written as strings but have arguments of
their own. -/
def ofKind? : Kind → Option Scalar
  | .boolean => some .boolean
  | .text => some .string
  | .integer => some .int
  | .float => some .float
  | _ => none

end Scalar

structure Argument (τ : Type) where
  type : τ
  description : Option String
  default : Value

/-- An output field. -/
structure Field (τ : Type) where
  type : τ
  args : List (String × Argument τ)
  resolver : Option Resolver

/-- A field of an input type; a null default means none. -/
structure InputField (τ : Type) where
  type : τ
  default : Value

/-- A type with a name of its own, over the types that its fields have. -/
inductive Definition (τ : Type) where
  | object (name : String) (fields : List (String × Field τ))
  | input (name : String) (fields : List (String × InputField τ))
  | enum (name : String) (values : List (String × Value))

namespace Definition
variable {τ : Type}

def name : Definition τ → String
  | object name _ => name
  | input name _ => name
  | enum name _ => name

/-- The types of a field and of its arguments. -/
def fieldTypes (field : Field τ) : List τ := field.type :: field.args.map fun arg => arg.2.type

/-- The types that a definition mentions, each field before its arguments. -/
def children : Definition τ → List τ
  | object _ fields => fields.flatMap fun field => fieldTypes field.2
  | input _ fields => fields.map fun field => field.2.type
  | enum _ _ => []

end Definition

/-- A type, over the keys of definitions that are kept elsewhere. -/
inductive SchemaType (κ : Type) where
  | scalar (s : Scalar)
  | list (item : SchemaType κ)
  | nonNull (item : SchemaType κ)
  /-- A definition at the only place where it is used. -/
  | named (definition : Definition (SchemaType κ))
  /-- A definition that other places may refer to as well. -/
  | link (key : κ)

namespace SchemaType
variable {κ : Type}

/-- The type inside all list and non-null wrappers. -/
def inner : SchemaType κ → SchemaType κ
  | list item => item.inner
  | nonNull item => item.inner
  | t => t

/-- A list, possibly inside non-null wrappers. -/
def isList : SchemaType κ → Bool
  | list _ => true
  | nonNull item => item.isList
  | _ => false

mutual
/-- The number of parts of a type; what a link leads to does not count. -/
def size : SchemaType κ → Nat
  | scalar _ => 1
  | list item => item.size + 1
  | nonNull item => item.size + 1
  | named (.object _ fields) => sizeFields fields + 1
  | named (.input _ fields) => sizeInputs fields + 1
  | named (.enum _ _) => 1
  | link _ => 1
def sizeFields : List (String × Field (SchemaType κ)) → Nat
  | [] => 0
  | (_, ⟨type, args, _⟩) :: rest => type.size + sizeArguments args + sizeFields rest
def sizeArguments : List (String × Argument (SchemaType κ)) → Nat
  | [] => 0
  | (_, ⟨type, _, _⟩) :: rest => type.size + sizeArguments rest
def sizeInputs : List (String × InputField (SchemaType κ)) → Nat
  | [] => 0
  | (_, ⟨type, _⟩) :: rest => type.size + sizeInputs rest
end

end SchemaType
end ContentSchema
