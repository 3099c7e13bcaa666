import ContentSchema.Calendar.DateTime
import ContentSchema.Calendar.Format
import ContentSchema.Calendar.IsoWeek
import ContentSchema.Calendar.Rounding
import ContentSchema.Text.Digit

/-! Dates and times written by a format. -/
namespace ContentSchema.Calendar

def monthNames : List String :=
  ["January", "February", "March", "April", "May", "June", "July", "August", "September",
   "October", "November", "December"]

/-- Sunday first. -/
def weekdayNames : List String :=
  ["Sunday", "Monday", "Tuesday", "Wednesday", "Thursday", "Friday", "Saturday"]

/-- The first three letters of a name. -/
def abbreviated (name : String) : String := String.ofList (name.toList.take 3)

/-- A number with its English ordinal ending. -/
def ordinalText (n : Nat) : String :=
  let ending :=
    if 10 ≤ n % 100 ∧ n % 100 ≤ 20 then "th"
    else match n % 10 with
      | 1 => "st"
      | 2 => "nd"
      | 3 => "rd"
      | _ => "th"
  toString n ++ ending

/-- Sign, hours and minutes; seconds are dropped. -/
def offsetText (separator : String) (offset : Int) : String :=
  let minutes := offset.natAbs / 60
  (if offset < 0 then "-" else "+") ++ Text.padded 2 (minutes / 60) ++ separator ++
    Text.padded 2 (minutes % 60)

namespace DateTime

/-- Seconds since the Unix epoch, one rounded quotient. -/
def unixTime (round : Rounding) (t : DateTime) : Rat :=
  round (mkRat (t.instant - unixEpoch.instant) 1000000)

/-- Sunday is 0 and Saturday 6. -/
def weekday (t : DateTime) : Nat := t.date.isoWeekday % 7

/-- The hour on a clock face. -/
def clockHour (t : DateTime) : Nat := if t.hour % 12 = 0 then 12 else t.hour % 12

def millisecond (t : DateTime) : Nat := t.microsecond / 1000

def render (round : Rounding) (t : DateTime) : Placeholder → String
  | .year => Text.padded 4 t.date.year
  | .shortYear => Text.padded 2 (t.date.year % 100)
  | .quarter => toString ((t.date.month - 1) / 3 + 1)
  | .monthName => monthNames.getD (t.date.month - 1) ""
  | .shortMonthName => abbreviated (monthNames.getD (t.date.month - 1) "")
  | .month2 => Text.padded 2 t.date.month
  | .month => toString t.date.month
  | .ordinalDay => ordinalText t.date.day
  | .dayOfYear3 => Text.padded 3 t.date.dayOfYear
  | .dayOfYear => toString t.date.dayOfYear
  | .day2 => Text.padded 2 t.date.day
  | .day => toString t.date.day
  | .weekdayName => weekdayNames.getD t.weekday ""
  | .shortWeekdayName => abbreviated (weekdayNames.getD t.weekday "")
  | .weekday => toString t.weekday
  | .isoWeekday => toString t.date.isoWeekday
  | .week2 => Text.padded 2 t.date.isoWeek.week
  | .week => toString t.date.isoWeek.week
  | .hour2 => Text.padded 2 t.hour
  | .hour => toString t.hour
  | .clockHour2 => Text.padded 2 t.clockHour
  | .clockHour => toString t.clockHour
  | .minute2 => Text.padded 2 t.minute
  | .minute => toString t.minute
  | .second2 => Text.padded 2 t.second
  | .second => toString t.second
  | .millisecond => Text.padded 3 t.millisecond
  | .centisecond => Text.padded 2 (t.millisecond / 10)
  | .decisecond => toString (t.millisecond / 100)
  | .meridiemCapital => if 12 ≤ t.hour then "PM" else "AM"
  | .meridiem => if 12 ≤ t.hour then "pm" else "am"
  | .plainOffset => offsetText "" t.offset
  | .offset => offsetText ":" t.offset
  | .unixSecond => toString (truncate (t.unixTime round))
  | .unixMillisecond => toString (truncate (round (t.unixTime round * 1000)))

def renderToken (round : Rounding) (t : DateTime) : Token → String
  | .placeholder p => t.render round p
  | .escaped text => String.ofList text
  | .literal c => String.ofList [c]

/-- Write a date and time by a format string. -/
def format (round : Rounding) (t : DateTime) (format : String) : Except FormatError String :=
  (tokens format).map fun found => String.join (found.map (t.renderToken round))

end DateTime
end ContentSchema.Calendar
