import ContentSchema.Calendar.Date

/-! Dates with a time of day and an offset from universal time. -/
namespace ContentSchema.Calendar

/-- A local date and time. The offset is in seconds, east of the meridian positive. -/
structure DateTime where
  date : Date
  hour : Nat
  minute : Nat
  second : Nat
  microsecond : Nat
  offset : Int
deriving DecidableEq

namespace DateTime

def isValid (t : DateTime) : Bool :=
  t.date.isValid && t.hour < 24 && t.minute < 60 && t.second < 60 && t.microsecond < 1000000 &&
    t.offset.natAbs < 86400

/-- Seconds since midnight. -/
def secondOfDay (t : DateTime) : Nat := t.hour * 3600 + t.minute * 60 + t.second

/-- Microseconds of universal time, counted from one day before year 1. -/
def instant (t : DateTime) : Int :=
  ((t.date.dayNumber * 86400 + t.secondOfDay : Nat) - t.offset) * 1000000 + t.microsecond

/-- The universal date and time of an instant, within the years 1 to 9999. -/
def ofInstant? (i : Int) : Option DateTime :=
  let seconds := i / 1000000
  let inDay := (seconds % 86400).toNat
  (Date.ofDayNumber? (seconds / 86400)).map fun date =>
    ⟨date, inDay / 3600, inDay / 60 % 60, inDay % 60, (i % 1000000).toNat, 0⟩

/-- The same instant in universal time. -/
def toUtc? (t : DateTime) : Option DateTime := ofInstant? t.instant

/-- Midnight of the first day of 1970, from which Unix time counts. -/
def unixEpoch : DateTime := ⟨⟨1970, 1, 1⟩, 0, 0, 0, 0, 0⟩

end DateTime
end ContentSchema.Calendar
