import ContentSchema.Link.MediaType
import ContentSchema.Value

/-! Texts that look like the path of a file relative to another file. -/
namespace ContentSchema.Location

/-! Absolute paths, with slashes or with drives and shares. -/

private def isAsciiLetter (c : Char) : Bool := c.isAlpha

/-- Two backslashes, a server name, a backslash and something else than a further backslash. -/
def isShare : List Char → Bool
  | '\\' :: '\\' :: rest =>
    let server := rest.takeWhile (· != '\\')
    match server, rest.drop server.length with
    | _ :: _, '\\' :: share => share.head? != some '\\'
    | _, _ => false
  | _ => false

/-- A drive letter, a colon and a backslash. -/
def isRootedDrive : List Char → Bool
  | letter :: ':' :: '\\' :: _ => isAsciiLetter letter
  | _ => false

/-- A path that counts as absolute where drives and shares exist, in backslashes. A path marked as
extended needs no drive, only a root. -/
def isAbsoluteOnDrives : List Char → Bool
  | '\\' :: '\\' :: '?' :: '\\' :: 'U' :: 'N' :: 'C' :: '\\' :: _ => true
  | '\\' :: '\\' :: '?' :: '\\' :: rest => rest.head? == some '\\' || isRootedDrive rest
  | path => isShare path || isRootedDrive path

def isRelativePath (location : List Char) : Bool :=
  location.head? != some '/' &&
    !isAbsoluteOnDrives (location.map fun c => if c == '/' then '\\' else c)

/-- Whether a location has neither a host at its start nor a scheme. -/
def isRelativeUrl : List Char → Except Url.Error Bool
  | '/' :: '/' :: _ => .ok false
  | location => do return !(← Url.parse location).hasScheme

/-- Whether a value is a relative path to a file of a known media type. -/
def isFilePath (convention : MediaType.Convention) (v : Value) : Except Url.Error Bool :=
  match v with
  | .text s => do
    if (← MediaType.isInformative convention s) && isRelativePath s.toList then
      isRelativeUrl s.toList
    else return false
  | _ => .ok false

end ContentSchema.Location
