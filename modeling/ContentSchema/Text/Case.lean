import ContentSchema.Text.CaseTable

/-! Capital and small forms of characters. A form may be longer than the character. -/
namespace ContentSchema.Text

/-- The distance that a table of runs gives a code point. -/
private def shiftIn (runs : List (Nat × Nat × Nat × Int)) (n : Nat) : Int :=
  match runs.find? fun (first, last, stride, _) =>
      first ≤ n && n ≤ last && (n - first) % stride == 0 with
  | some (_, _, _, distance) => distance
  | none => 0

private def formIn (expansions : List (Nat × List Nat)) (runs : List (Nat × Nat × Nat × Int))
    (c : Char) : List Char :=
  match expansions.lookup c.toNat with
  | some codes => codes.map Char.ofNat
  | none => [Char.ofNat (c.toNat + shiftIn runs c.toNat).toNat]

/-- The capital form of a character; ASCII letters need no table. -/
def upper (c : Char) : List Char :=
  if c.toNat < 0x80 then [c.toUpper] else formIn upperExpansions upperRuns c

/-- The small form of a character; ASCII letters need no table. -/
def lower (c : Char) : List Char :=
  if c.toNat < 0x80 then [c.toLower] else formIn lowerExpansions lowerRuns c

/-- Capitalise the first character only. -/
def capitalised : List Char → List Char
  | [] => []
  | c :: rest => upper c ++ rest

def capitalFirst (s : String) : String := String.ofList (capitalised s.toList)

/-- Make the first character small only. -/
def smallFirst (s : String) : String :=
  match s.toList with
  | [] => ""
  | c :: rest => String.ofList (lower c ++ rest)

/-- The small form of a whole text, character by character. -/
def lowered (s : String) : String := String.ofList (s.toList.flatMap lower)

end ContentSchema.Text
