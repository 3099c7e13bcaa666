/-! Binary floating point numbers with 53 significant bits, as exact data. -/
namespace ContentSchema

/-- A finite number is `± significand · 2 ^ exponent`. A NaN has a mark that tells it from the
others. -/
inductive Binary64 where
  | finite (negative : Bool) (significand : Nat) (exponent : Int)
  | infinity (negative : Bool)
  | nan (mark : Nat)
deriving DecidableEq

/-- The integer nearest to `num / den`; a tie goes to the even neighbour. -/
def roundHalfEven (num den : Nat) : Nat :=
  let q := num / den
  let r := num % den
  if 2 * r < den then q else if den < 2 * r then q + 1 else q + q % 2

namespace Binary64

/-- The quotient `(num / den) / 2 ^ e`, as numerator and denominator. -/
def scaled (num den : Nat) (e : Int) : Nat × Nat :=
  if 0 ≤ e then (num, den * Nat.pow 2 e.toNat) else (num * Nat.pow 2 (-e).toNat, den)

/-- The greatest `k` with `2 ^ k ≤ num / den`, for a positive quotient. -/
def log2Ratio (num den : Nat) : Int :=
  let k : Int := num.log2 - den.log2
  let (n, d) := scaled num den k
  if d ≤ n then k else k - 1

/-- The number nearest to `num / den`; exponents below -1074 are out of reach, and what would
need one above 971 is infinite. -/
def nearest (negative : Bool) (num den : Nat) : Binary64 :=
  if num = 0 then .finite negative 0 0 else
  let e := max (log2Ratio num den - 52) (-1074)
  let (n, d) := scaled num den e
  let m := roundHalfEven n d
  let (m, e) := if m = Nat.pow 2 53 then (Nat.pow 2 52, e + 1) else (m, e)
  if m = 0 then .finite negative 0 0
  else if 971 < e then .infinity negative
  else .finite negative m e

def ofRat (q : Rat) : Binary64 := nearest (q.num < 0) q.num.natAbs q.den

/-- The rational `± significand · 2 ^ exponent`. -/
def toRat? : Binary64 → Option Rat
  | .finite negative m e =>
    let q := if 0 ≤ e then mkRat (m * Nat.pow 2 e.toNat) 1 else mkRat m (Nat.pow 2 (-e).toNat)
    some (if negative then -q else q)
  | _ => none

/-- The nearest representable rational; a quotient beyond the largest one is left alone. -/
def round (q : Rat) : Rat := (ofRat q).toRat?.getD q

def isZero : Binary64 → Bool
  | .finite _ m _ => m == 0
  | _ => false

/-- Finite and without a fractional part. -/
def isInteger : Binary64 → Bool
  | .finite _ m e => 0 ≤ e || m % Nat.pow 2 (-e).toNat == 0
  | _ => false

/-- The number nearest to `coefficient · 10 ^ exponent`. Exponents far beyond the range are
settled without computing the power. -/
def ofDecimal (negative : Bool) (coefficient : Nat) (exponent : Int) : Binary64 :=
  if coefficient = 0 then .finite negative 0 0
  else if 400 < exponent then .infinity negative
  else if exponent < -400 - coefficient.log2 then .finite negative 0 0
  else if 0 ≤ exponent then nearest negative (coefficient * Nat.pow 10 exponent.toNat) 1
  else nearest negative coefficient (Nat.pow 10 (-exponent).toNat)

end Binary64
end ContentSchema
