import ContentSchema.Calendar.Relative
import ContentSchema.Text.Case

/-! The difference of two times in whole units. -/
namespace ContentSchema.Calendar

inductive Measure where
  | year | quarter | month | week | day | hour | minute | second | millisecond
deriving DecidableEq

namespace Measure

def name : Measure → String
  | year => "year" | quarter => "quarter" | month => "month" | week => "week" | day => "day"
  | hour => "hour" | minute => "minute" | second => "second" | millisecond => "millisecond"

/-- The spellings of a unit. -/
def spellings : List (String × Measure) :=
  [("y", year), ("year", year), ("years", year),
   ("Q", quarter), ("quarter", quarter), ("quarters", quarter),
   ("M", month), ("month", month), ("months", month),
   ("w", week), ("week", week), ("weeks", week),
   ("d", day), ("day", day), ("days", day),
   ("h", hour), ("hour", hour), ("hours", hour),
   ("m", minute), ("minute", minute), ("minutes", minute),
   ("s", second), ("second", second), ("seconds", second),
   ("ms", millisecond), ("millisecond", millisecond), ("milliseconds", millisecond)]

/-- The unit of a spelling; one that is unknown as it stands is tried in small letters. Everything
else means milliseconds. -/
def ofSpelling (s : String) : Measure :=
  ((spellings.lookup s).or (spellings.lookup (Text.lowered s))).getD millisecond

/-- The length of a unit in milliseconds. -/
def milliseconds : Measure → Nat
  | week => 604800000
  | day => 86400000
  | hour => 3600000
  | minute => 60000
  | second => 1000
  | _ => 1

end Measure

/-- A date would fall outside the years 1 to 9999. -/
structure YearOutOfRange where
  year : Int

def YearOutOfRange.message (e : YearOutOfRange) : String :=
  "year " ++ toString e.year ++ " is out of range"

namespace DateTime

/-- Move by whole months; a day that the month does not have becomes its last day. -/
def shiftMonths (t : DateTime) (months : Int) : Except YearOutOfRange DateTime :=
  let total : Int := t.date.year * 12 + (t.date.month - 1 : Nat) + months
  let year := total / 12
  let month := (total % 12).toNat + 1
  if 1 ≤ year ∧ year ≤ 9999 then
    .ok { t with date := ⟨year.toNat, month, min t.date.day (daysInMonth year.toNat month)⟩ }
  else .error ⟨year⟩

end DateTime

/-- The months from `b` to `a`, with a fraction of the month that `b` falls into. -/
def monthsBetween (round : Rounding) (a b : DateTime) : Except YearOutOfRange Rat := do
  let years : Int := (b.date.year : Int) - a.date.year
  let whole : Int := years * 12 + ((b.date.month : Int) - a.date.month)
  let anchor ← a.shiftMonths whole
  let past := b.instant - anchor.instant
  let length ← if past < 0 then do
      pure (anchor.instant - (← a.shiftMonths (whole - 1)).instant)
    else do
      pure ((← a.shiftMonths (whole + 1)).instant - anchor.instant)
  return -(round (whole + round (mkRat past length.toNat)))

/-- How many whole units now is after a value, toward zero. -/
def elapsed (round : Rounding) (now value : DateTime) (unit : Measure) :
    Except YearOutOfRange Int :=
  match unit with
  | .year => return truncate (round ((← monthsBetween round now value) / 12))
  | .quarter => return truncate (round ((← monthsBetween round now value) / 3))
  | .month => return truncate (← monthsBetween round now value)
  | unit => .ok (truncate (round (millisecondsFrom round value now / unit.milliseconds)))

end ContentSchema.Calendar
