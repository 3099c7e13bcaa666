import ContentSchema.Value.Literal

/-! Values as JSON text in printable ASCII, with a space after each comma and colon. -/
namespace ContentSchema.Json

/-- Special numbers in JSON text. -/
def spelling : Binary64.Spelling := ⟨"Infinity", "NaN"⟩

private def unit (n : Nat) : List Char := ['\\', 'u'] ++ Text.hex 4 n

/-- A character beyond the basic plane is written as its two surrogate halves. -/
private def escapedChar (c : Char) : List Char :=
  if c == '"' then ['\\', '"']
  else if c == '\\' then ['\\', '\\']
  else if c == '\n' then ['\\', 'n']
  else if c == '\r' then ['\\', 'r']
  else if c == '\t' then ['\\', 't']
  else if c == '\x08' then ['\\', 'b']
  else if c == '\x0c' then ['\\', 'f']
  else
    let n := c.toNat
    if 0x20 ≤ n && n < 0x7F then [c]
    else if n < 0x10000 then unit n
    else unit (0xD800 + (n - 0x10000) / 0x400) ++ unit (0xDC00 + (n - 0x10000) % 0x400)

def quoted (s : String) : String := String.ofList ('"' :: s.toList.flatMap escapedChar ++ ['"'])

mutual
/-- JSON text of a value; bytes and foreign values have none. -/
def text? : Value → Option String
  | .null => some "null"
  | .bool b => some (if b then "true" else "false")
  | .int n => some (toString n)
  | .float x => some (x.text spelling)
  | .text s => some (quoted s)
  | .list items => (texts? items).map fun ts => "[" ++ ", ".intercalate ts ++ "]"
  | .tuple items => (texts? items).map fun ts => "[" ++ ", ".intercalate ts ++ "]"
  | .mapping fields => (members? fields).map fun ts => "\x7b" ++ ", ".intercalate ts ++ "\x7d"
  | .bytes _ => none
  | .foreign _ _ => none
def texts? : List Value → Option (List String)
  | [] => some []
  | v :: rest => match text? v, texts? rest with
    | some t, some ts => some (t :: ts)
    | _, _ => none
def members? : List (String × Value) → Option (List String)
  | [] => some []
  | (k, v) :: rest => match text? v, members? rest with
    | some t, some ts => some ((quoted k ++ ": " ++ t) :: ts)
    | _, _ => none
end

end ContentSchema.Json
