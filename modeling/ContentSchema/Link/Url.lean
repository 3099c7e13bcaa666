import ContentSchema.Link.Address
import ContentSchema.Value.Literal

/-! Locations read as URLs. A broken host is refused. -/
namespace ContentSchema

/-- The scheme of a location in small letters, empty if there is none; its host; and its path,
without parameters where the scheme has them. The rest of a location is not looked at. -/
structure Url where
  scheme : List Char
  host : List Char
  path : List Char
deriving DecidableEq

namespace Url

inductive Error where
  /-- A bracket of a numeric host has no partner. -/
  | brackets
  | futureAddress
  | dottedInBrackets
  | noAddress (host : String)
  /-- The host holds a character that stands for a delimiter. -/
  | delimiterInHost (host : String)

def Error.message : Error → String
  | brackets => "Invalid IPv6 URL"
  | futureAddress => "IPvFuture address is invalid"
  | dottedInBrackets => "An IPv4 address cannot be in brackets"
  | noAddress host => Text.quoted host ++ " does not appear to be an IPv4 or IPv6 address"
  | delimiterInHost host =>
    "netloc '" ++ host ++ "' contains invalid characters under NFKC normalization"

/-- Characters whose compatibility form holds a slash, question mark, number sign, at sign or
colon. -/
def delimiterLookalikes : List Nat :=
  [0x2047, 0x2048, 0x2049, 0x2100, 0x2101, 0x2105, 0x2106, 0x2A74, 0xFE13, 0xFE16, 0xFE55, 0xFE56,
   0xFE5F, 0xFE6B, 0xFF03, 0xFF0F, 0xFF1A, 0xFF1F, 0xFF20]

/-- Leading control characters and spaces go away, and so do tabs and line breaks anywhere. -/
def tidy (location : List Char) : List Char :=
  (location.dropWhile fun c => c.toNat ≤ 0x20).filter fun c => c != '\t' && c != '\r' && c != '\n'

private def isSchemeChar (c : Char) : Bool := c.isAlphanum || c == '+' || c == '-' || c == '.'

/-- The scheme, empty if there is none, and what follows it. -/
def splitScheme (location : List Char) : List Char × List Char :=
  let start := location.takeWhile (· != ':')
  match start, location.drop start.length with
  | first :: _, ':' :: rest =>
    if first.isAlpha && start.all isSchemeChar then (start.map Char.toLower, rest)
    else ([], location)
  | _, _ => ([], location)

/-- The host after two slashes, and what follows it. -/
def splitHost : List Char → List Char × List Char
  | '/' :: '/' :: rest =>
    let host := rest.takeWhile fun c => c != '/' && c != '?' && c != '#'
    (host, rest.drop host.length)
  | rest => ([], rest)

/-- Schemes whose paths can have parameters. -/
def parameterised : List String :=
  ["ftp", "hdl", "prospero", "http", "imap", "https", "shttp", "rtsp", "rtsps", "rtspu", "sip",
   "sips", "mms", "sftp", "tel"]

/-- A path up to the first semicolon of its last segment. -/
def withoutParameters (path : List Char) : List Char :=
  let segment := (path.reverse.takeWhile (· != '/')).reverse
  path.take (path.length - segment.length) ++ segment.takeWhile (· != ';')

/-- A location taken apart, whatever its host is. -/
def split (location : List Char) : Url :=
  let (scheme, rest) := splitScheme (tidy location)
  let (host, rest) := splitHost rest
  let path := rest.takeWhile fun c => c != '?' && c != '#'
  ⟨scheme, host,
    if parameterised.contains (String.ofList scheme) then withoutParameters path else path⟩

/-- What stands between the first opening bracket and the next closing one. -/
def bracketed (h : List Char) : List Char :=
  ((h.dropWhile (· != '[')).drop 1).takeWhile (· != ']')

/-- Brackets hold an address in groups or one of a later version. -/
def checkBracketed (inner : List Char) : Except Error Unit :=
  if inner.head? == some 'v' then
    if Address.isFuture inner then .ok () else .error .futureAddress
  else if Address.isDotted inner then .error .dottedInBrackets
  else if Address.isGrouped inner then .ok ()
  else .error (.noAddress (String.ofList inner))

def checkHost (h : List Char) : Except Error Unit := do
  if h.contains '[' != h.contains ']' then throw .brackets
  if h.contains '[' then checkBracketed (bracketed h)
  if h.any fun c => delimiterLookalikes.contains c.toNat then
    throw (.delimiterInHost (String.ofList h))

def parse (location : List Char) : Except Error Url := do
  let url := split location
  checkHost url.host
  return url

/-- Whether there is a scheme. A single letter before the colon is a drive. -/
def hasScheme (url : Url) : Bool := 1 < url.scheme.length

end Url
end ContentSchema
