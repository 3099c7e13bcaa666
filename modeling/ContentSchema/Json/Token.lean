import ContentSchema.Json.Tree
import ContentSchema.Text.Digit

/-! The lexical grammar of JSON text. -/
namespace ContentSchema.Json

/-- A lexical element. A whole number keeps its digits; `bad` stands for text that starts no
element, and ends the sequence. -/
inductive Token where
  | openBrace | closeBrace | openBracket | closeBracket | colon | comma
  | text (s : Points)
  | whole (negative : Bool) (digits : List Char)
  | scalar (t : Tree)
  | bad

private def hexValue? (c : Char) : Option Nat :=
  if '0' ≤ c ∧ c ≤ '9' then some (c.toNat - 48)
  else if 'a' ≤ c ∧ c ≤ 'f' then some (c.toNat - 87)
  else if 'A' ≤ c ∧ c ≤ 'F' then some (c.toNat - 55)
  else none

private def codeUnit? (a b c d : Char) : Option Nat := do
  return (((← hexValue? a) * 16 + (← hexValue? b)) * 16 + (← hexValue? c)) * 16 + (← hexValue? d)

/-- The code points of UTF-16 code units. A half without its partner stands alone. -/
def ofUnits : List Nat → Points
  | [] => []
  | [u] => [u]
  | u :: v :: rest =>
    if 0xD800 ≤ u ∧ u < 0xDC00 ∧ 0xDC00 ≤ v ∧ v < 0xE000 then
      (0x10000 + (u - 0xD800) * 0x400 + (v - 0xDC00)) :: ofUnits rest
    else u :: ofUnits (v :: rest)

private def simpleEscape? (c : Char) : Option Char :=
  [('"', '"'), ('\\', '\\'), ('/', '/'), ('b', '\x08'), ('f', '\x0c'), ('n', '\n'), ('r', '\r'),
    ('t', '\t')].lookup c

/-- Read a text up to its closing quote. `units` holds the code units of escapes just read, in
reverse, until a plain character follows. -/
def scanText (units : List Nat) (done : Points) : List Char → Option (Points × List Char)
  | [] => none
  | '"' :: rest => some (done.reverse ++ ofUnits units.reverse, rest)
  | '\\' :: 'u' :: a :: b :: c :: d :: rest =>
    match codeUnit? a b c d with
    | some u => scanText (u :: units) done rest
    | none => none
  | '\\' :: c :: rest =>
    match simpleEscape? c with
    | some e => scanText [] (e.toNat :: (ofUnits units.reverse).reverse ++ done) rest
    | none => none
  | c :: rest =>
    if c.toNat < 0x20 || c == '\\' then none
    else scanText [] (c.toNat :: (ofUnits units.reverse).reverse ++ done) rest

/-- A leading run of ASCII digits, and the rest. -/
def digitRun (cs : List Char) : List Char × List Char :=
  (cs.takeWhile Char.isDigit, cs.dropWhile Char.isDigit)

/-- The digits before the point: a zero alone, or a run that starts with another digit. -/
private def wholePart : List Char → List Char × List Char
  | '0' :: rest => (['0'], rest)
  | cs => digitRun cs

/-- A point and at least one digit. -/
private def fractionPart : List Char → List Char × List Char
  | '.' :: rest => match digitRun rest with
    | ([], _) => ([], '.' :: rest)
    | (ds, rest) => (ds, rest)
  | cs => ([], cs)

private def signedRun (negative : Bool) (cs : List Char) : Option (Int × List Char) :=
  match digitRun cs with
  | ([], _) => none
  | (ds, rest) =>
    let n := (Text.number? ds).getD 0
    some (if negative then -n else n, rest)

/-- A letter e, an optional sign and at least one digit. -/
private def exponentPart (cs : List Char) : Option (Int × List Char) :=
  match cs with
  | c :: rest =>
    if c == 'e' || c == 'E' then match rest with
      | '-' :: rest => signedRun true rest
      | '+' :: rest => signedRun false rest
      | rest => signedRun false rest
    else none
  | [] => none

/-- A number. With a fraction or an exponent it is rounded to binary, else it stays whole. -/
def scanNumber (negative : Bool) (cs : List Char) : Option (Token × List Char) :=
  match wholePart cs with
  | ([], _) => none
  | (whole, rest) =>
    let (fraction, rest) := fractionPart rest
    match fraction, exponentPart rest with
    | [], none => some (.whole negative whole, rest)
    | _, power =>
      let (exponent, rest) := power.getD (0, rest)
      let coefficient := (Text.number? (whole ++ fraction)).getD 0
      some (.scalar (.number (.ofDecimal negative coefficient (exponent - fraction.length))), rest)

/-- The fixed words of the grammar. -/
def words : List (List Char × Tree) :=
  [("null".toList, .null), ("true".toList, .bool true), ("false".toList, .bool false),
   ("NaN".toList, .number (.nan 0)), ("Infinity".toList, .number (.infinity false)),
   ("-Infinity".toList, .number (.infinity true))]

private def scanWord (cs : List Char) : Option (Token × List Char) :=
  (words.find? fun w => w.1.isPrefixOf cs).map fun w => (.scalar w.2, cs.drop w.1.length)

/-- The next element of a text that starts with no blank. -/
def scanToken (cs : List Char) : Option (Token × List Char) :=
  match cs with
  | [] => none
  | c :: rest =>
    if c == '\x7b' then some (.openBrace, rest)
    else if c == '\x7d' then some (.closeBrace, rest)
    else if c == '[' then some (.openBracket, rest)
    else if c == ']' then some (.closeBracket, rest)
    else if c == ':' then some (.colon, rest)
    else if c == ',' then some (.comma, rest)
    else if c == '"' then (scanText [] [] rest).map fun (s, rest) => (.text s, rest)
    else match scanWord (c :: rest) with
      | some found => some found
      | none => if c == '-' then scanNumber true rest else scanNumber false (c :: rest)

private theorem scanNumber_eq_some {negative : Bool} {cs rest : List Char} {token : Token}
    (h : scanNumber negative cs = some (token, rest)) :
    (∃ digits, token = .whole negative digits) ∨ ∃ x, token = .scalar (.number x) := by
  unfold scanNumber at h
  split at h
  · cases h
  · dsimp only at h
    split at h
    · cases h
      exact Or.inl ⟨_, rfl⟩
    · cases h
      exact Or.inr ⟨_, rfl⟩

/-- A scalar is one of the fixed words or a number. -/
theorem scanToken_eq_scalar {cs rest : List Char} {t : Tree}
    (h : scanToken cs = some (.scalar t, rest)) : t ∈ words.map Prod.snd ∨ ∃ x, t = .number x := by
  have number {negative : Bool} {cs : List Char}
      (h : scanNumber negative cs = some (.scalar t, rest)) : ∃ x, t = .number x := by
    obtain ⟨_, other⟩ | ⟨x, same⟩ := scanNumber_eq_some h
    · cases other
    · exact ⟨x, Token.scalar.inj same⟩
  unfold scanToken at h
  split at h
  · cases h
  · -- Brackets, braces, colon, comma and quote begin elements of other kinds.
    iterate 7
      split at h
      · simp at h
    split at h
    · rename_i found word
      cases h
      obtain ⟨w, known, same⟩ := Option.map_eq_some_iff.mp word
      cases same
      exact Or.inl (List.mem_map_of_mem (List.mem_of_find?_eq_some known))
    · split at h
      · exact Or.inr (number h)
      · exact Or.inr (number h)

def isBlank (c : Char) : Bool := c == ' ' || c == '\t' || c == '\n' || c == '\r'

/-- The elements of a text, each scan taking at least one of `room` characters. -/
def tokensWithin : (room : Nat) → List Char → List Token
  | 0, _ => []
  | room + 1, cs =>
    match cs.dropWhile isBlank with
    | [] => []
    | c :: rest => match scanToken (c :: rest) with
      | some (token, rest) => token :: tokensWithin room rest
      | none => [.bad]

def tokens (cs : List Char) : List Token := tokensWithin cs.length cs

end ContentSchema.Json
