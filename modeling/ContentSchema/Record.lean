import ContentSchema.Value.Literal

/-! Records among other values, and the types that records declare. -/
namespace ContentSchema

/-- Something that stands among records and is none. -/
structure NotRecord where
  value : Value

/-- The record that a value is. -/
def Record.ofValue (v : Value) : Except NotRecord Record :=
  match v.fields? with
  | some r => .ok r
  | none => .error ⟨v⟩

/-- The records of a list that holds nothing else. -/
def Record.listOf (entries : List Value) : Except NotRecord (List Record) :=
  entries.mapM Record.ofValue

theorem Record.listOf_mapping (records : List Record) :
    Record.listOf (records.map Value.mapping) = .ok records := by
  induction records with
  | nil => rfl
  | cons r records ih =>
    unfold Record.listOf at ih ⊢
    rw [List.map_cons, List.mapM_cons, ih]
    rfl

/-- The type of records that stand for files. -/
def fileType : String := "File"

/-- The name of a record's type, empty when it has none. -/
def Record.typeName (r : Record) : String :=
  let type := Record.get r "type"
  if type.isTruthy then type.display else ""

/-- The name of the type that some records share. The first one tells it. -/
def typeNameOf (entries : List Value) : Except NotRecord String :=
  match entries with
  | [] => .ok ""
  | v :: _ => (Record.ofValue v).map Record.typeName

theorem exists_typeNameOf (records : List Record) :
    ∃ typeName, typeNameOf (records.map Value.mapping) = .ok typeName := by
  cases records with
  | nil => exact ⟨_, rfl⟩
  | cons r records => exact ⟨_, rfl⟩

end ContentSchema
