import ContentSchema.Link.Url
import ContentSchema.Text.Case

/-! Whether the media type of a resource can be told from its location. -/
namespace ContentSchema.MediaType

/-- File name endings with a media type of their own. -/
def extensions : List String :=
  [".3g2", ".3gp", ".3gpp", ".3gpp2", ".aac", ".adts", ".ai", ".aif", ".aifc", ".aiff", ".ass",
   ".au", ".avi", ".avif", ".bat", ".bcpio", ".bmp", ".c", ".cdf", ".cpio", ".csh", ".css", ".csv",
   ".doc", ".dot", ".dvi", ".eml", ".eps", ".etx", ".gif", ".gtar", ".h", ".h5", ".hdf", ".heic",
   ".heif", ".htm", ".html", ".ico", ".ief", ".jpe", ".jpeg", ".jpg", ".js", ".json", ".ksh",
   ".latex", ".loas", ".m1v", ".m3u", ".m3u8", ".man", ".me", ".mht", ".mhtml", ".mid", ".midi",
   ".mif", ".mjs", ".mov", ".movie", ".mp2", ".mp3", ".mp4", ".mpa", ".mpe", ".mpeg", ".mpg",
   ".ms", ".n3", ".nc", ".nq", ".nt", ".nws", ".oda", ".opus", ".p12", ".p7c", ".pbm", ".pct",
   ".pdf", ".pfx", ".pgm", ".pic", ".pict", ".pl", ".png", ".pnm", ".pot", ".ppa", ".ppm", ".pps",
   ".ppt", ".ps", ".pwz", ".py", ".pyc", ".pyo", ".qt", ".ra", ".ram", ".ras", ".rdf", ".rgb",
   ".roff", ".rtf", ".rtx", ".sgm", ".sgml", ".sh", ".shar", ".snd", ".src", ".srt", ".sv4cpio",
   ".sv4crc", ".svg", ".swf", ".t", ".tar", ".tcl", ".tex", ".texi", ".texinfo", ".tif", ".tiff",
   ".tr", ".trig", ".tsv", ".txt", ".ustar", ".vcf", ".vtt", ".wasm", ".wav", ".webm",
   ".webmanifest", ".webp", ".wiz", ".wsdl", ".xbm", ".xlb", ".xls", ".xml", ".xpdl", ".xpm",
   ".xsl", ".xul", ".xwd", ".zip"]

/-- Endings that stand for two. -/
def doubled : List (String × String) :=
  [(".svgz", ".svg.gz"), (".tgz", ".tar.gz"), (".taz", ".tar.gz"), (".tz", ".tar.gz"),
   (".tbz2", ".tar.bz2"), (".txz", ".tar.xz")]

/-- Endings of packed files; the ending before them decides. -/
def packed : List String := [".gz", ".Z", ".bz2", ".xz", ".br"]

/-- Media types that say nothing about a resource being a file. -/
def uninformative : List String :=
  ["application/octet-stream", "application/x-msdownload", "application/x-msdos-program"]

/-- Cut a path before the last dot of its last segment. Dots that start the segment do not count. -/
def splitExtension (path : List Char) : List Char × List Char :=
  let reversed := path.reverse
  let tail := reversed.takeWhile fun c => c != '/' && c != '.'
  match reversed.drop tail.length with
  | '.' :: before =>
    if (before.takeWhile (· != '/')).any (· != '.') then (before.reverse, '.' :: tail.reverse)
    else (path, [])
  | _ => (path, [])

/-- The ending that decides on the media type, in small letters. -/
def decidingExtension (path : List Char) : String :=
  let (base, ending) := splitExtension path
  let (base, ending) := match doubled.lookup (Text.lowered (String.ofList ending)) with
    | some both => splitExtension (base ++ both.toList)
    | none => (base, ending)
  let ending :=
    if packed.contains (String.ofList ending) then (splitExtension base).2 else ending
  Text.lowered (String.ofList ending)

/-- The scheme before the first colon, in small letters, and the rest. The scheme holds no slash. -/
def splitScheme (location : List Char) : List Char × List Char :=
  let start := location.takeWhile fun c => c != '/' && c != ':'
  match start, location.drop start.length with
  | _ :: _, ':' :: rest => (start.flatMap Text.lower, rest)
  | _, _ => ([], location)

/-- How a location is taken apart before its media type is told. Both ways are in use. -/
inductive Convention where
  /-- What stands before the first colon is the scheme, and the path is all that follows it. -/
  | colon
  /-- The location is read as a URL, which fails if the host is broken. Without a scheme all of the
  location is the path. -/
  | url
deriving DecidableEq

/-- The scheme, empty if there is none, and the path. -/
def Convention.split (convention : Convention) (location : List Char) :
    Except Url.Error (List Char × List Char) :=
  match convention with
  | .colon => .ok (splitScheme location)
  | .url => do
    let url ← Url.parse location
    return if url.hasScheme then (url.scheme, url.path) else ([], location)

/-- The media type that a data location declares before its comma. Anything unusual there means
plain text. -/
def declared? (rest : List Char) : Option String :=
  if rest.contains ',' then
    let type := rest.takeWhile fun c => c != ',' && c != ';'
    some (if type.contains '=' || !type.contains '/' then "text/plain" else String.ofList type)
  else none

/-- Whether the media type of a location is known and says something. -/
def isInformative (convention : Convention) (location : String) : Except Url.Error Bool := do
  match ← convention.split location.toList with
  | (['d', 'a', 't', 'a'], path) => match declared? path with
    | some type => return !uninformative.contains type
    | none => return false
  | (_, path) => return extensions.contains (decidingExtension path)

end ContentSchema.MediaType
