import ContentSchema.Value
import ContentSchema.Number.Shortest
import ContentSchema.Text.Printable

/-! Values written as literals, for messages and for texts made of non-texts. -/
namespace ContentSchema

/-- Special numbers in literals. -/
def Binary64.literalSpelling : Binary64.Spelling := ⟨"inf", "nan"⟩

namespace Text

/-- A number in hexadecimal with at least the given number of digits. -/
def hex (width n : Nat) : List Char :=
  let digits := Nat.toDigits 16 n
  List.replicate (width - digits.length) '0' ++ digits

/-- Double quotes serve only for a text that holds single quotes and no double ones. -/
def quoteFor (hasSingle hasDouble : Bool) : Char := if hasSingle && !hasDouble then '"' else '\''

/-- The short escapes, and the backslash before itself and the quote. -/
private def shortEscape? (quote c : Char) : Option (List Char) :=
  if c == quote || c == '\\' then some ['\\', c]
  else if c == '\n' then some ['\\', 'n']
  else if c == '\r' then some ['\\', 'r']
  else if c == '\t' then some ['\\', 't']
  else none

private def escaped (quote c : Char) : List Char :=
  match shortEscape? quote c with
  | some cs => cs
  | none =>
    if isPrintable c then [c]
    else if c.toNat < 0x100 then ['\\', 'x'] ++ hex 2 c.toNat
    else if c.toNat < 0x10000 then ['\\', 'u'] ++ hex 4 c.toNat
    else ['\\', 'U'] ++ hex 8 c.toNat

/-- A surrogate is no character and always escaped. -/
private def escapedPoint (quote : Char) (p : Nat) : List Char :=
  if 0xD800 ≤ p ∧ p < 0xE000 then ['\\', 'u'] ++ hex 4 p else escaped quote (Char.ofNat p)

/-- Code points between quotes. -/
def quotedPoints (s : List Nat) : String :=
  let quote := quoteFor (s.contains 39) (s.contains 34)
  String.ofList (quote :: s.flatMap (escapedPoint quote) ++ [quote])

def quoted (s : String) : String := quotedPoints (s.toList.map Char.toNat)

private def escapedByte (quote : Char) (b : UInt8) : List Char :=
  let c := Char.ofNat b.toNat
  match shortEscape? quote c with
  | some cs => cs
  | none => if 0x20 ≤ b.toNat && b.toNat < 0x7F then [c] else ['\\', 'x'] ++ hex 2 b.toNat

def quotedBytes (content : List UInt8) : String :=
  let quote := quoteFor (content.contains 39) (content.contains 34)
  String.ofList ('b' :: quote :: content.flatMap (escapedByte quote) ++ [quote])

end Text

namespace Value

mutual
def literal : Value → String
  | .null => "None"
  | .bool true => "True"
  | .bool false => "False"
  | .int n => toString n
  | .float x => x.text Binary64.literalSpelling
  | .text s => Text.quoted s
  | .bytes content => Text.quotedBytes content
  | .list items => "[" ++ ", ".intercalate (literals items) ++ "]"
  | .tuple [v] => "(" ++ literal v ++ ",)"
  | .tuple items => "(" ++ ", ".intercalate (literals items) ++ ")"
  | .mapping fields => "\x7b" ++ ", ".intercalate (fieldLiterals fields) ++ "\x7d"
  | .foreign name _ => "<opaque " ++ name ++ ">"
def literals : List Value → List String
  | [] => []
  | v :: rest => literal v :: literals rest
def fieldLiterals : List (String × Value) → List String
  | [] => []
  | (k, v) :: rest => (Text.quoted k ++ ": " ++ literal v) :: fieldLiterals rest
end

/-- A text stands for itself; any other value is written as a literal. -/
def display : Value → String
  | .text s => s
  | v => v.literal

/-- What a value is called in a message about its shape. -/
def className : Value → String
  | .null => "NoneType"
  | .bool _ => "bool"
  | .int _ => "int"
  | .float _ => "float"
  | .text _ => "str"
  | .bytes _ => "bytes"
  | .list _ => "list"
  | .tuple _ => "tuple"
  | .mapping _ => "dict"
  | .foreign _ _ => "Opaque"

end Value
end ContentSchema
