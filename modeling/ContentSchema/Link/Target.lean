import ContentSchema.Store

/-! The records that link values point at. -/
namespace ContentSchema

/-- The record that a value points at: the one with this identifier or, for a linked field, the
first one that has the field with an equal value. -/
def Store.linked? (s : Store) (value : Value) (linkedField : Option String) :
    Except StoreFault (Option Record) :=
  match linkedField.filter fun field => !field.isEmpty with
  | none => s.node? value
  | some field => return (← s.nodes).find? fun r => match Dictionary.get? r field with
    | some v => v.same value
    | none => false

end ContentSchema
