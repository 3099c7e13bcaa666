/-! Format strings for dates: placeholders, bracketed literal text and single characters. -/
namespace ContentSchema.Calendar

inductive Placeholder where
  | year | shortYear | quarter | monthName | shortMonthName | month2 | month
  | ordinalDay | dayOfYear3 | dayOfYear | day2 | day
  | weekdayName | shortWeekdayName | weekday | isoWeekday | week2 | week
  | hour2 | hour | clockHour2 | clockHour | minute2 | minute | second2 | second
  | millisecond | centisecond | decisecond | meridiemCapital | meridiem
  | plainOffset | offset | unixSecond | unixMillisecond
deriving DecidableEq

namespace Placeholder

def spelling : Placeholder → String
  | year => "YYYY" | shortYear => "YY" | quarter => "Q" | monthName => "MMMM"
  | shortMonthName => "MMM" | month2 => "MM" | month => "M" | ordinalDay => "Do"
  | dayOfYear3 => "DDDD" | dayOfYear => "DDD" | day2 => "DD" | day => "D"
  | weekdayName => "dddd" | shortWeekdayName => "ddd" | weekday => "d" | isoWeekday => "E"
  | week2 => "WW" | week => "W" | hour2 => "HH" | hour => "H" | clockHour2 => "hh"
  | clockHour => "h" | minute2 => "mm" | minute => "m" | second2 => "ss" | second => "s"
  | millisecond => "SSS" | centisecond => "SS" | decisecond => "S" | meridiemCapital => "A"
  | meridiem => "a" | plainOffset => "ZZ" | offset => "Z" | unixSecond => "X"
  | unixMillisecond => "x"

/-- All placeholders, each before those that begin it. -/
def all : List Placeholder :=
  [year, shortYear, quarter, monthName, shortMonthName, month2, month, ordinalDay, dayOfYear3,
   dayOfYear, day2, day, weekdayName, shortWeekdayName, weekday, isoWeekday, week2, week, hour2,
   hour, clockHour2, clockHour, minute2, minute, second2, second, millisecond, centisecond,
   decisecond, meridiemCapital, meridiem, plainOffset, offset, unixSecond, unixMillisecond]

/-- The first placeholder of the list that begins a text. -/
def startOf? (cs : List Char) : Option Placeholder :=
  all.find? fun p => p.spelling.toList.isPrefixOf cs

end Placeholder

inductive Token where
  | placeholder (p : Placeholder)
  /-- The text between brackets. -/
  | escaped (text : List Char)
  | literal (c : Char)
deriving DecidableEq

/-- The parts of a date and time that a format can read. -/
inductive Component where
  | year | month | day | ordinal | hour | minute | second | millis | week | weekday | offset
deriving DecidableEq

def Component.name : Component → String
  | year => "year" | month => "month" | day => "day" | ordinal => "ordinal" | hour => "hour"
  | minute => "minute" | second => "second" | millis => "millis" | week => "week"
  | weekday => "weekday" | offset => "offset"

inductive FormatError where
  /-- A bracket opens at this position and is not closed. -/
  | openEscape (position : Nat)
  /-- This placeholder serves for writing only. -/
  | writeOnly (p : Placeholder)
  /-- A component occurs twice in a format for reading. -/
  | repeated (c : Component)
  /-- A text matched a format for reading that has no year. -/
  | withoutYear

def FormatError.message : FormatError → String
  | openEscape position => "Unterminated '[' escape at position " ++ toString position
  | writeOnly p => "Placeholder '" ++ p.spelling ++ "' cannot be used for parsing"
  | repeated c => "redefinition of group name '" ++ c.name ++ "'"
  | withoutYear => "'year'"

/-- The text up to the next closing bracket, and what follows the bracket. -/
def closeEscape? : List Char → Option (List Char × List Char)
  | [] => none
  | ']' :: rest => some ([], rest)
  | c :: rest => (closeEscape? rest).map fun (text, after) => (c :: text, after)

theorem closeEscape?_length {cs text after : List Char}
    (h : closeEscape? cs = some (text, after)) : text.length + after.length + 1 = cs.length := by
  induction cs generalizing text with
  | nil => cases h
  | cons c cs ih =>
    unfold closeEscape? at h
    split at h
    · cases h
    · rename_i heq; cases heq; cases h; simp
    · rename_i heq
      cases heq
      simp only [Option.map_eq_some_iff] at h
      obtain ⟨⟨inner, tail⟩, found, pair⟩ := h
      obtain ⟨rfl, rfl⟩ := Prod.mk.inj pair
      have := ih found
      simp only [List.length_cons] at this ⊢
      omega

theorem Placeholder.spelling_length_pos (p : Placeholder) : 0 < p.spelling.toList.length := by
  cases p <;> decide

/-- The tokens of a text that starts at a position of the whole format. Bracketed text comes first,
then the longest placeholder, then a single character. -/
def tokensFrom (position : Nat) (cs : List Char) : Except FormatError (List Token) :=
  match cs with
  | [] => .ok []
  | c :: rest =>
    if c = '[' then
      match h : closeEscape? rest with
      | none => .error (.openEscape position)
      | some (text, after) =>
        (tokensFrom (position + text.length + 2) after).map (.escaped text :: ·)
    else
      match Placeholder.startOf? (c :: rest) with
      | some p =>
        let width := p.spelling.toList.length
        (tokensFrom (position + width) ((c :: rest).drop width)).map (.placeholder p :: ·)
      | none => (tokensFrom (position + 1) rest).map (.literal c :: ·)
termination_by cs.length
decreasing_by
  · have := closeEscape?_length h; simp only [List.length_cons]; omega
  · have := p.spelling_length_pos; simp only [List.length_drop, List.length_cons]; omega
  · simp

def tokens (format : String) : Except FormatError (List Token) := tokensFrom 0 format.toList

end ContentSchema.Calendar
