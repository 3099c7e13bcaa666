import ContentSchema.Json.Token

/-! JSON text read as data. -/
namespace ContentSchema.Json

inductive ReadError where
  | malformed
  | wholeTooLong (digits : Nat)

/-- Whole numbers of more digits are refused. -/
def digitLimit : Nat := 4300

/-- An unfinished container: its finished content, in reverse for an array. -/
inductive Frame where
  | array (items : List Tree)
  | object (fields : Dictionary Tree Points) (key : Points)

/-- What may come next; each state but the first also holds the unfinished containers. -/
inductive State where
  | value (outer : List Frame)
  | arrayStart (outer : List Frame)
  | objectStart (outer : List Frame)
  | key (fields : Dictionary Tree Points) (outer : List Frame)
  | colon (fields : Dictionary Tree Points) (key : Points) (outer : List Frame)
  | after (t : Tree) (outer : List Frame)

private def wholeTree (negative : Bool) (digits : List Char) : Except ReadError Tree :=
  if digitLimit < digits.length then .error (.wholeTooLong digits.length)
  else
    let n := (Text.number? digits).getD 0
    .ok (.whole (if negative then -n else n))

/-- The state after an element that starts a value. -/
private def startValue (outer : List Frame) : Token → Except ReadError State
  | .openBrace => .ok (.objectStart outer)
  | .openBracket => .ok (.arrayStart outer)
  | .text s => .ok (.after (.text s) outer)
  | .scalar t => .ok (.after t outer)
  | .whole negative digits => return .after (← wholeTree negative digits) outer
  | _ => .error .malformed

/-- What comes of an element where a value is due. -/
inductive Starts (outer : List Frame) : Token → Except ReadError State → Prop
  | object : Starts outer .openBrace (.ok (.objectStart outer))
  | array : Starts outer .openBracket (.ok (.arrayStart outer))
  | text (s : Points) : Starts outer (.text s) (.ok (.after (.text s) outer))
  | scalar (v : Tree) : Starts outer (.scalar v) (.ok (.after v outer))
  | whole (negative : Bool) (digits : List Char) (n : Int) :
      Starts outer (.whole negative digits) (.ok (.after (.whole n) outer))
  | tooLong (negative : Bool) {digits : List Char} (long : digitLimit < digits.length) :
      Starts outer (.whole negative digits) (.error (.wholeTooLong digits.length))
  | none (t : Token) : Starts outer t (.error .malformed)

theorem starts_startValue (outer : List Frame) (t : Token) :
    Starts outer t (startValue outer t) := by
  cases t with
  | openBrace => exact .object
  | openBracket => exact .array
  | text s => exact .text s
  | scalar v => exact .scalar v
  | whole negative digits =>
    by_cases long : digitLimit < digits.length
    · have refused : wholeTree negative digits = .error (.wholeTooLong digits.length) := if_pos long
      rw [startValue, refused]
      exact .tooLong negative long
    · have taken : wholeTree negative digits = .ok (.whole _) := if_neg long
      rw [startValue, taken]
      exact .whole negative digits _
  | _ => exact .none _

/-- One step over an element. A repeated key keeps its first place and its last value. -/
def step : State → Token → Except ReadError State
  | .value outer, t => startValue outer t
  | .arrayStart outer, .closeBracket => .ok (.after (.array []) outer)
  | .arrayStart outer, t => startValue (.array [] :: outer) t
  | .objectStart outer, .closeBrace => .ok (.after (.object []) outer)
  | .objectStart outer, .text k => .ok (.colon [] k outer)
  | .key fields outer, .text k => .ok (.colon fields k outer)
  | .colon fields k outer, .colon => .ok (.value (.object fields k :: outer))
  | .after v (.array items :: outer), .comma => .ok (.value (.array (v :: items) :: outer))
  | .after v (.array items :: outer), .closeBracket =>
    .ok (.after (.array (v :: items).reverse) outer)
  | .after v (.object fields k :: outer), .comma => .ok (.key (Dictionary.put fields k v) outer)
  | .after v (.object fields k :: outer), .closeBrace =>
    .ok (.after (.object (Dictionary.put fields k v)) outer)
  | _, _ => .error .malformed

def read (text : String) : Except ReadError Tree := do
  match ← (tokens text.toList).foldlM step (.value []) with
  | .after v [] => return v
  | _ => throw .malformed

end ContentSchema.Json
