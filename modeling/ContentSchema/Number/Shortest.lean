import ContentSchema.Number.Binary64
import ContentSchema.Text.Digit

/-! The decimal text of a binary number: the fewest digits that read back, nearest of those. -/
namespace ContentSchema.Binary64

/-- The place `p` with `10 ^ (p - 1) ≤ num / den < 10 ^ p`. -/
def decimalPoint (num den : Nat) : Int :=
  if den ≤ num then (Nat.toDigits 10 (num / den)).length
  else match (List.range 400).find? fun j => den ≤ num * Nat.pow 10 (j + 1) with
    | some j => -j
    | none => -400

/-- The decimal `d · 10 ^ k` next to `num / den`, on either side, that reads back as `x`. Of two
such neighbours the nearer is taken, and at equal distance the even one. -/
def readsBackAt (x : Binary64) (num den : Nat) (k : Int) : Option Nat :=
  let (a, b) :=
    if 0 ≤ k then (num, den * Nat.pow 10 k.toNat) else (num * Nat.pow 10 (-k).toNat, den)
  let below := a / b
  let r := a % b
  match ofDecimal false below k == x, ofDecimal false (below + 1) k == x with
  | true, true =>
    some (if 2 * r < b then below else if b < 2 * r then below + 1 else below + below % 2)
  | true, false => some below
  | false, true => some (below + 1)
  | false, false => none

/-- The digits of a positive number and the place of its decimal point, counted from the first
digit. Seventeen digits always read back. -/
def shortestDigits (significand : Nat) (exponent : Int) : List Char × Int :=
  let x := finite false significand exponent
  let (num, den) := scaled significand 1 (-exponent)
  let p := decimalPoint num den
  let found := (List.range 17).findSome? fun (n : Nat) =>
    let k : Int := p - (n + 1)
    (readsBackAt x num den k).map fun d => (d, k)
  let (d, k) := found.getD (0, 0)
  let digits := Nat.toDigits 10 d
  ((digits.reverse.dropWhile (· == '0')).reverse, digits.length + k)

/-- How the special numbers are spelled. -/
structure Spelling where
  infinity : String
  nan : String

/-- Decimal points from the fourth leading zero to the sixteenth digit are written in place;
other numbers have one digit before the point and a signed exponent of at least two digits. -/
def layout (digits : List Char) (point : Int) : List Char :=
  if -4 < point ∧ point ≤ 16 then
    if point ≤ 0 then ['0', '.'] ++ List.replicate (-point).toNat '0' ++ digits
    else
      let whole := digits.take point.toNat
      let fraction := digits.drop point.toNat
      whole ++ List.replicate (point.toNat - whole.length) '0' ++
        '.' :: (if fraction.isEmpty then ['0'] else fraction)
  else
    let fraction := if digits.length ≤ 1 then [] else '.' :: digits.drop 1
    let exponent := point - 1
    digits.take 1 ++ fraction ++ 'e' :: (if exponent < 0 then '-' else '+') ::
      (Text.padded 2 exponent.natAbs).toList

def text (spelling : Spelling) : Binary64 → String
  | .nan _ => spelling.nan
  | .infinity negative => (if negative then "-" else "") ++ spelling.infinity
  | .finite negative m e =>
    let body := if m = 0 then ['0', '.', '0'] else
      let (digits, point) := shortestDigits m e
      layout digits point
    (if negative then "-" else "") ++ String.ofList body

end ContentSchema.Binary64
