import ContentSchema.Text.Split

/-! Numeric addresses of hosts. -/
namespace ContentSchema.Address

/-- A decimal number up to 255 without leading zeros. -/
def isOctet (part : List Char) : Bool :=
  !part.isEmpty && part.length ≤ 3 && part.all Char.isDigit &&
    (part.length == 1 || part.head? != some '0') && Nat.ofDigitChars 10 part 0 ≤ 255

/-- Four numbers between dots. -/
def isDotted (text : List Char) : Bool :=
  let parts := Text.splitAt ['.'] text
  parts.length == 4 && parts.all isOctet

def isHexDigit (c : Char) : Bool :=
  c.isDigit || ('a' ≤ c && c ≤ 'f') || ('A' ≤ c && c ≤ 'F')

/-- Up to four hexadecimal digits. -/
def isGroup (part : List Char) : Bool :=
  !part.isEmpty && part.length ≤ 4 && part.all isHexDigit

/-- The parts between colons. Four numbers between dots stand for the last two groups. -/
def parts? (text : List Char) : Option (List (List Char)) :=
  let parts := Text.splitAt [':'] text
  let last := parts.getLastD []
  if last.contains '.' then
    if isDotted last then some (parts.dropLast ++ [['0'], ['0']]) else none
  else some parts

/-- The groups on one side of a gap. An empty part alone belongs to the gap. -/
def beside (parts : List (List Char)) : List (List Char) := if parts == [[]] then [] else parts

/-- Whether parts are eight groups, or fewer with one gap that stands for the missing ones. An empty
part is a gap unless it is the first or the last one. -/
def areGroups : List (List Char) → Bool
  | [] => false
  | first :: rest =>
    let inner := rest.dropLast
    match inner.count [] with
    | 0 => rest.length == 7 && (first :: rest).all isGroup
    | 1 =>
      let before := inner.takeWhile (!·.isEmpty)
      let groups := beside (first :: before) ++ beside (rest.drop (before.length + 1))
      groups.length ≤ 7 && groups.all isGroup
    | _ => false

/-- The address before a percent sign, which has a zone after it. -/
def withoutZone? (text : List Char) : Option (List Char) :=
  match Text.splitAt ['%'] text with
  | [address] => some address
  | [address, _ :: _] => some address
  | _ => none

/-- An address in groups, in a zone or not. -/
def isGrouped (text : List Char) : Bool :=
  match withoutZone? text >>= parts? with
  | some parts => areGroups parts
  | none => false

/-- An address of a later version: a small v, hexadecimal digits, a dot and something after it. -/
def isFuture : List Char → Bool
  | 'v' :: rest =>
    let version := rest.takeWhile isHexDigit
    match version, rest.drop version.length with
    | _ :: _, '.' :: _ :: _ => true
    | _, _ => false
  | _ => false

end ContentSchema.Address
