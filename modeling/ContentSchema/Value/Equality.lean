import ContentSchema.Value

/-! Equality of values: numbers by what they stand for, mappings regardless of order. A NaN equals
nothing, yet as a member of a collection, or as a key, it is found again. -/
namespace ContentSchema

/-- What a number stands for in a comparison. -/
inductive Quantity where
  | exact (q : Rat)
  | infinite (negative : Bool)
  | undefined

/-- An undefined quantity equals nothing, not even itself. -/
def Quantity.same : Quantity → Quantity → Bool
  | .exact p, .exact q => p == q
  | .infinite a, .infinite b => a == b
  | _, _ => false

def Binary64.quantity (x : Binary64) : Quantity :=
  match x with
  | .infinity negative => .infinite negative
  | .nan _ => .undefined
  | .finite .. => match x.toRat? with
    | some q => .exact q
    | none => .undefined

namespace Value

/-- Truth values count as the numbers zero and one. -/
def quantity? : Value → Option Quantity
  | .bool b => some (.exact (if b then 1 else 0))
  | .int n => some (.exact n)
  | .float x => some x.quantity
  | _ => none

/-- Whether both are one NaN. -/
def isSameNaN : Value → Value → Bool
  | .float (.nan m), .float (.nan n) => m == n
  | _, _ => false

mutual
/-- Equality. Collections are equal when their members are alike. -/
def same : Value → Value → Bool
  | .null, .null => true
  | .text s, .text t => s == t
  | .bytes s, .bytes t => s == t
  | .foreign s m, .foreign t n => s == t && m == n
  | .list xs, .list ys => sameItems xs ys
  | .tuple xs, .tuple ys => sameItems xs ys
  | .mapping fs, .mapping gs => fs.length == gs.length && sameFields fs gs
  | a, b => match a.quantity?, b.quantity? with
    | some p, some q => p.same q
    | _, _ => false
def sameItems : List Value → List Value → Bool
  | [], [] => true
  | a :: as, b :: bs => (isSameNaN a b || same a b) && sameItems as bs
  | _, _ => false
/-- Every field on the left has one alike of the same key on the right. -/
def sameFields : List (String × Value) → List (String × Value) → Bool
  | [], _ => true
  | (k, a) :: rest, gs => (match Dictionary.get? gs k with
    | some b => isSameNaN a b || same a b
    | none => false) && sameFields rest gs
end

/-- How members of collections and keys compare: equal values are alike, and so is a NaN to
itself. -/
def alike (a b : Value) : Bool := isSameNaN a b || same a b

end Value
end ContentSchema
