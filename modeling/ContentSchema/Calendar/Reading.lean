import ContentSchema.Calendar.DateTime
import ContentSchema.Calendar.Format
import ContentSchema.Calendar.IsoWeek
import ContentSchema.Text.Digit

/-! Texts read strictly by a format: every character has to match, and the parts found have to form
a date that exists. -/
namespace ContentSchema.Calendar

/-- What a format for reading asks of the text, piece by piece. -/
inductive Piece where
  | exactly (c : Char)
  | digits (component : Component) (count : Nat)
  /-- The letter Z, or a sign, two digits, an optional colon and two digits. -/
  | offset
deriving DecidableEq

/-- The piece that a placeholder reads, if it can be read. -/
def Placeholder.piece? : Placeholder → Option Piece
  | year => some (.digits .year 4)
  | month2 => some (.digits .month 2)
  | day2 => some (.digits .day 2)
  | dayOfYear3 => some (.digits .ordinal 3)
  | hour2 => some (.digits .hour 2)
  | minute2 => some (.digits .minute 2)
  | second2 => some (.digits .second 2)
  | millisecond => some (.digits .millis 3)
  | week2 => some (.digits .week 2)
  | isoWeekday => some (.digits .weekday 1)
  | offset => some .offset
  | _ => none

def Piece.component? : Piece → Option Component
  | .exactly _ => none
  | .digits component _ => some component
  | .offset => some .offset

def Token.pieces : Token → Except FormatError (List Piece)
  | .placeholder p => match p.piece? with
    | some piece => .ok [piece]
    | none => .error (.writeOnly p)
  | .escaped text => .ok (text.map .exactly)
  | .literal c => .ok [.exactly c]

/-- The first component that occurs a second time. -/
def firstRepeated? : (seen : List Component) → List Component → Option Component
  | _, [] => none
  | seen, c :: rest => if c ∈ seen then some c else firstRepeated? (c :: seen) rest

/-- A format for reading. Of several faults the one of the brackets is reported first, then a
placeholder that cannot be read, then a repeated component. -/
def pieces (format : String) : Except FormatError (List Piece) := do
  let found := (← (← tokens format).mapM Token.pieces).flatten
  match firstRepeated? [] (found.filterMap Piece.component?) with
  | some c => throw (.repeated c)
  | none => return found

/-- The numbers read, by component; an offset is in seconds. -/
abbrev Reading := List (Component × Int)

namespace Reading

def get? (r : Reading) (c : Component) : Option Nat := (r.lookup c).map Int.toNat

end Reading

/-- A number of exactly so many digits, and the rest. -/
def takeNumber? (count : Nat) (cs : List Char) : Option (Nat × List Char) :=
  if cs.length < count then none
  else (Text.number? (cs.take count)).map fun n => (n, cs.drop count)

/-- What follows a colon, or all of a text that does not start with one. -/
def afterColon : List Char → List Char
  | ':' :: rest => rest
  | rest => rest

/-- Hours and minutes as seconds, and the rest. -/
def takeShift? (cs : List Char) : Option (Int × List Char) := do
  let (hours, cs) ← takeNumber? 2 cs
  let (minutes, cs) ← takeNumber? 2 (afterColon cs)
  return (hours * 3600 + minutes * 60, cs)

/-- An offset in seconds, and the rest. -/
def takeOffset? : List Char → Option (Int × List Char)
  | 'Z' :: rest => some (0, rest)
  | 'z' :: rest => some (0, rest)
  | '+' :: rest => takeShift? rest
  | '-' :: rest => (takeShift? rest).map fun (seconds, rest) => (-seconds, rest)
  | _ => none

/-- Match a whole text. -/
def matchPieces? : List Piece → List Char → Option Reading
  | [], [] => some []
  | [], _ :: _ => none
  | .exactly c :: rest, cs => match cs with
    | d :: cs => if c = d then matchPieces? rest cs else none
    | [] => none
  | .digits component count :: rest, cs => do
    let (n, cs) ← takeNumber? count cs
    return (component, (n : Int)) :: (← matchPieces? rest cs)
  | .offset :: rest, cs => do
    let (seconds, cs) ← takeOffset? cs
    return (.offset, seconds) :: (← matchPieces? rest cs)

/-- The date of a reading. A day of the year comes before a week, and a week before a month; what
is not read is the first one. -/
def Reading.date? (r : Reading) (year : Nat) : Option Date :=
  match r.get? .ordinal with
  | some n => if 1 ≤ year ∧ 1 ≤ n ∧ n ≤ daysInYear year then some (.ofDayOfYear year n) else none
  | none => match r.get? .week with
    | some week => Date.ofIsoWeek? year week ((r.get? .weekday).getD 1)
    | none => Date.ofParts? year ((r.get? .month).getD 1) ((r.get? .day).getD 1)

/-- The universal date and time of a reading, when it exists. -/
def Reading.dateTime? (r : Reading) (year : Nat) : Option DateTime := do
  let date ← r.date? year
  let zoned : DateTime :=
    ⟨date, (r.get? .hour).getD 0, (r.get? .minute).getD 0, (r.get? .second).getD 0,
      (r.get? .millis).getD 0 * 1000, (r.lookup .offset).getD 0⟩
  guard zoned.isValid
  zoned.toUtc?

/-- Read a text by the first format that matches it and yields a date that exists. -/
def readStrict (formats : List String) (text : String) : Except FormatError (Option DateTime) :=
  match formats with
  | [] => .ok none
  | format :: rest => do
    match matchPieces? (← pieces format) text.toList with
    | none => readStrict rest text
    | some reading => match reading.get? .year with
      | none => throw .withoutYear
      | some year => match reading.dateTime? year with
        | some t => return some t
        | none => readStrict rest text

/-- The calendar, week and ordinal formats of ISO 8601. -/
def isoFormats : List String :=
  ["YYYY", "YYYY-MM", "YYYY-MM-DD", "YYYYMMDD",
   "YYYY-MM-DDTHHZ", "YYYY-MM-DDTHH:mmZ", "YYYY-MM-DDTHHmmZ", "YYYY-MM-DDTHH:mm:ssZ",
   "YYYY-MM-DDTHHmmssZ", "YYYY-MM-DDTHH:mm:ss.SSSZ", "YYYY-MM-DDTHHmmss.SSSZ",
   "YYYY-[W]WW", "YYYY[W]WW", "YYYY-[W]WW-E", "YYYY[W]WWE", "YYYY-DDDD", "YYYYDDDD"]

/-- The date and time of a text in one of the ISO formats. -/
def isoDate? (text : String) : Option DateTime :=
  match readStrict isoFormats text with
  | .ok found => found
  | .error _ => none

def isIsoDate (text : String) : Bool := (isoDate? text).isSome

end ContentSchema.Calendar
