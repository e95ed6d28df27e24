import ModBench.Url.Segments

/-!
URLs of files.  `ofPath?` writes the URL of an absolute path; `parse?` reads a URL as far as it says
where a file is, and `toPath?` gives the path that it names.
-/

set_option autoImplicit false
set_option relaxedAutoImplicit false

namespace ModBench

/-- A URL, without its query and fragment. -/
structure Url where
  scheme : String
  /-- The host; none when it is absent or empty. -/
  host : Option (List Char)
  /-- The segments of the path; none when the path does not begin with a slash. -/
  segments : Option (List (List Char))
  deriving DecidableEq, Repr, Inhabited

namespace Url

/-- The names of the components of an absolute path behind the root. -/
def namesOf (p : Path) : List (List UInt8) :=
  (p.components.drop 1).map Component.bytes

def ofPath? (p : Path) : Option Url :=
  if p.isAbsolute then
    let segments := (namesOf p).map encodeSegment
    some ⟨"file", none, some (if segments.isEmpty then [[]] else segments)⟩
  else none

def text (u : Url) : String :=
  let path := (u.segments.getD []).flatMap fun segment => '/' :: segment
  u.scheme ++ "://" ++ String.ofList (u.host.getD [] ++ path)

def localName : List Char := "localhost".toList

/-- The path that a URL names; none for a URL of another host or without segments. -/
def toPath? (u : Url) : Option Path :=
  if u.host.getD localName = localName then u.segments.map pathOfSegments else none

/-- Characters that do not count at the ends of a URL. -/
def isMargin (c : Char) : Bool := c.toNat ≤ 0x20

/-- The text without margins, and without line ends and tabs anywhere. -/
def clean (text : List Char) : List Char :=
  let trimmed := ((text.dropWhile isMargin).reverse.dropWhile isMargin).reverse
  trimmed.filter fun c => !(c = '\t' || c = '\n' || c = '\r')

def isSchemeChar (c : Char) : Bool :=
  c.isAlphanum || c = '+' || c = '-' || c = '.'

/-- The scheme in lower case and the text behind its colon. -/
def takeScheme? (text : List Char) : Option (String × List Char) :=
  match text with
  | [] => none
  | c :: _ =>
    if c.isAlpha then
      match text.dropWhile isSchemeChar with
      | ':' :: rest =>
        some (String.ofList ((text.takeWhile isSchemeChar).map lowerAscii), rest)
      | _ => none
    else none

/-- Schemes with hosts whose URLs have paths that begin with a slash. -/
def isWeb (scheme : String) : Bool :=
  ["http", "https", "ws", "wss", "ftp"].contains scheme

/-- Whether a character ends the part of a URL that names the host. -/
def endsAuthority (web : Bool) (c : Char) : Bool :=
  c = '/' || c = '?' || c = '#' || (web && c = '\\')

def pathText (text : List Char) : List Char :=
  text.takeWhile fun c => c ≠ '?' && c ≠ '#'

/-- The text with slashes in the place of backslashes. -/
def straighten (text : List Char) : List Char :=
  text.map fun c => if c = '\\' then '/' else c

/-- The text without one slash at its beginning. -/
def dropSlash : List Char → List Char
  | '/' :: rest => rest
  | text => text

/-- The segments behind the host of a URL of a file. -/
def fileSegments (text : List Char) : List (List Char) :=
  segmentsOf true (dropSlash (straighten (pathText text)))

/-- Whether a file's path begins with a drive letter, which puts the host aside. -/
def hasDrive (text : List Char) : Bool :=
  let segments := resolve true [] (Text.split '/' (dropSlash (straighten (pathText text))))
  (segments.head?.map isDriveLetter).getD false

/-- The URL of a file, from behind the two slashes before its host. -/
def parseFileAuthority? (text : List Char) : Option Url :=
  let name := text.takeWhile fun c => !endsAuthority true c
  if isDriveLetter name then some ⟨"file", none, some (fileSegments text)⟩
  else
    let segments := fileSegments (text.drop name.length)
    if name.isEmpty then some ⟨"file", none, some segments⟩
    else
      match webHost? name with
      | none => none
      | some host =>
        if host = localName || hasDrive (text.drop name.length) then
          some ⟨"file", none, some segments⟩
        else some ⟨"file", some host, some segments⟩

def parseFile? (text : List Char) : Option Url :=
  match straighten (text.take 2) with
  | ['/', '/'] => parseFileAuthority? (text.drop 2)
  | _ => some ⟨"file", none, some (fileSegments text)⟩

/-- What stands before the last `@` of an authority, none without one, and the rest. -/
def cutUser (authority : List Char) : Option (List Char) × List Char :=
  if authority.contains '@' then
    let host := (authority.reverse.takeWhile fun c => c ≠ '@').reverse
    (some (authority.take (authority.length - host.length - 1)), host)
  else (none, authority)

/-- The host part of an authority, up to a colon outside brackets. -/
def takeHost (inside : Bool) : List Char → List Char × List Char
  | [] => ([], [])
  | c :: rest =>
    if c = ':' && !inside then ([], c :: rest)
    else
      let inside := if c = '[' then true else if c = ']' then false else inside
      let (host, after) := takeHost inside rest
      (c :: host, after)

/-- Whether the text behind a host is nothing, or a colon and a port number. -/
def isPort (text : List Char) : Bool :=
  match text with
  | [] => true
  | _ :: digits => digits.all Char.isDigit && (valueIn? 10 digits).getD 65536 < 65536

def needsHost (user : Option (List Char)) (goesOn : Bool) : Bool :=
  match user with
  | none => false
  | some [] => goesOn
  | some name => name != [':']

/-- A URL with a host, from behind the slashes before it. -/
def parseAuthority? (scheme : String) (text : List Char) : Option Url :=
  let web := isWeb scheme
  let authority := text.takeWhile fun c => !endsAuthority web c
  let behind := text.drop authority.length
  let path := pathText behind
  let (user, place) := cutUser authority
  let (host, after) := takeHost false place
  if host.isEmpty && (!after.isEmpty || needsHost user (!behind.isEmpty)) || !isPort after then none
  else if web then
    (webHost? host).map fun host =>
      ⟨scheme, some host, some (segmentsOf false (dropSlash (straighten path)))⟩
  else
    (plainHost? host).map fun host =>
      ⟨scheme, if host.isEmpty then none else some host,
        if path.isEmpty then none else some (segmentsOf false (dropSlash path))⟩

/-- A URL of a scheme that is neither of the web nor of files, from behind its scheme. -/
def parsePlain? (scheme : String) (text : List Char) : Option Url :=
  match text with
  | '/' :: '/' :: rest => parseAuthority? scheme rest
  | '/' :: rest => some ⟨scheme, none, some (segmentsOf false (pathText rest))⟩
  | _ => some ⟨scheme, none, none⟩

def parse? (text : String) : Option Url :=
  match takeScheme? (clean text.toList) with
  | none => none
  | some (scheme, rest) =>
    if scheme = "file" then parseFile? rest
    else if isWeb scheme then
      parseAuthority? scheme (rest.dropWhile fun c => c = '/' || c = '\\')
    else parsePlain? scheme rest

end Url

end ModBench
