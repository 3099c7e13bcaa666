import ContentSchema.Example

/-! Paths into values, and what records show along a path. -/
namespace ContentSchema

/-- Down to the value under a key, or to a member of a sequence. -/
inductive PathStep where
  | key (name : String)
  | element
deriving DecidableEq

namespace PathStep

/-- Keys lead into mappings, the other step into sequences. -/
def fits : PathStep → Value → Bool
  | .key _, v => v.fields?.isSome
  | .element, v => v.items?.isSome

/-- What a value shows one step further down, nulls left out. -/
def below : PathStep → Value → List Value
  | .key name, .mapping fields => (Dictionary.get? fields name).toList.filter fun v => !v.isNull
  | .element, .list items => items.filter fun v => !v.isNull
  | .element, .tuple items => items.filter fun v => !v.isNull
  | _, _ => []

end PathStep

/-- What values show at a path, in order. -/
def observationsFrom (values : List Value) (path : List PathStep) : List Value :=
  path.foldl (fun values step => values.flatMap step.below) values

/-- What some records show at a path. -/
def observations (records : List Record) (path : List PathStep) : List Value :=
  observationsFrom (records.map Value.mapping) path

namespace Value

/-- A value that is found in another one at a path. -/
inductive Holds : Value → List PathStep → Value → Prop where
  | here (v : Value) : Holds v [] v
  | key {fields : List (String × Value)} {name : String} {child v : Value} {path : List PathStep}
      (found : Dictionary.get? fields name = some child) (deeper : Holds child path v) :
      Holds (.mapping fields) (.key name :: path) v
  | element {w child v : Value} {items : List Value} {path : List PathStep}
      (sequence : w.items? = some items) (found : child ∈ items) (deeper : Holds child path v) :
      Holds w (.element :: path) v

/-- No mapping anywhere inside has a key twice. -/
def KeysDistinct (v : Value) : Prop :=
  ∀ path fields, v.Holds path (.mapping fields) → (Dictionary.keys fields).Nodup

/-- Neither missing nor a container. -/
def isLeaf : Value → Bool
  | .null | .list _ | .tuple _ | .mapping _ => false
  | _ => true

end Value
end ContentSchema
