import WatchedStore.Text.Utf8

/-!
# URLs

The syntax of URLs whose scheme has no rules of its own. A text is read leniently: what surrounds it and
the tabs and line breaks in it do not count, credentials may hold nearly any character, and the segments of
a path that stand for itself or for its parent are resolved. Only a scheme, a host and a port can be wrong,
and whether they are is decided here. What the parts are good for is not.
-/

namespace WatchedStore.Remote

/-- A URL in its parts, with percent signs as they were written. -/
structure Url where
  scheme : List Char
  username : List Char
  password : Option (List Char)
  /-- Empty when there is none. -/
  host : List Char
  port : Option Nat
  /-- Starts with a slash, unless it is empty or no path of segments. -/
  path : List Char
  query : List Char

namespace Url

/-! ## Characters -/

/-- The characters of a text that count. Blanks and controls around it do not, nor do tabs and line
breaks anywhere. -/
def significant (text : List Char) : List Char :=
  let isBlank (c : Char) : Bool := c.toNat ≤ 32
  let inner := ((text.dropWhile isBlank).reverse.dropWhile isBlank).reverse
  inner.filter fun c => c ≠ '\t' && c ≠ '\n' && c ≠ '\r'

/-- Whether a character can stand in a scheme. -/
def isSchemeChar (c : Char) : Bool := c.isAlphanum || c = '+' || c = '-' || c = '.'

/-- Whether a character cannot stand in a host that is a name. -/
def isForbiddenInHost (c : Char) : Bool :=
  c.toNat = 0 || c = ' ' || c = '<' || c = '>' || c = '[' || c = ']' || c = '\\' || c = '^' || c = '|'

/-- Whether a character is a hexadecimal digit. -/
def isHexDigit (c : Char) : Bool := c.isDigit || ('a' ≤ c.toLower && c.toLower ≤ 'f')

/-- Replaces each percent sign before two hexadecimal digits, and them, by the byte they name. -/
def percentDecode : Bytes → Bytes
  | [] => []
  | 0x25 :: high :: low :: rest =>
    match Bytes.hexValue? high, Bytes.hexValue? low with
    | some h, some l => (16 * h + l).toUInt8 :: percentDecode rest
    | _, _ => 0x25 :: percentDecode (high :: low :: rest)
  | b :: rest => b :: percentDecode rest

/-- The bytes that characters stand for. -/
def decoded (cs : List Char) : Bytes := percentDecode (Bytes.ofText (String.ofList cs))

/-! ## Scheme -/

/-- Splits a URL into its scheme, in lower case, and what follows the colon. -/
def splitScheme? (url : List Char) : Option (List Char × List Char) :=
  let scheme := url.takeWhile isSchemeChar
  match url.drop scheme.length, scheme with
  | ':' :: rest, first :: _ => if first.isAlpha then some (scheme.map Char.toLower, rest) else none
  | _, _ => none

/-! ## Host and port -/

/-- Whether digits are the decimal number of a byte, without superfluous zeros. -/
def isOctet (digits : List Char) : Bool :=
  match digits with
  | ['0'] => true
  | '0' :: _ => false
  | _ =>
    !digits.isEmpty && digits.all Char.isDigit && digits.length ≤ 3
      && digits.foldl (fun n c => 10 * n + (c.toNat - 48)) 0 ≤ 255

/-- Whether a text is an address of four octets. -/
def isDottedAddress (text : List Char) : Bool :=
  let octets := text.splitOn '.'
  octets.length = 4 && octets.all isOctet

/-- Whether a text is a group of an address: up to four hexadecimal digits. -/
def isGroup (text : List Char) : Bool := !text.isEmpty && text.length ≤ 4 && text.all isHexDigit

/-- Of how many groups a part of an address consists. A dotted address counts twice and can only stand at
the end of the last part. -/
def groupCount? (isLast : Bool) (part : List Char) : Option Nat :=
  if part.isEmpty then some 0
  else
    let groups := part.splitOn ':'
    if groups.all isGroup then some groups.length
    else if isLast && groups.dropLast.all isGroup && groups.getLast?.any isDottedAddress then
      some (groups.length + 1)
    else none

/-- Splits an address at its first two colons in a row. -/
def splitGap? : List Char → Option (List Char × List Char)
  | [] => none
  | ':' :: ':' :: rest => some ([], rest)
  | c :: rest => (splitGap? rest).map fun (before, after) => (c :: before, after)

/-- Whether a text is an address of eight groups. One gap may stand for any of them, but for one at
least. -/
def isGroupedAddress (text : List Char) : Bool :=
  match splitGap? text with
  | none => groupCount? true text == some 8
  | some (before, after) =>
    match groupCount? false before, groupCount? true after with
    | some m, some n => m + n < 8
    | _, _ => false

/-- The host in front of a port. Within brackets a colon belongs to the host. -/
def hostPart (bracketed : Bool) : List Char → List Char
  | [] => []
  | c :: rest =>
    if c = ':' && !bracketed then []
    else c :: hostPart (c = '[' || (bracketed && c ≠ ']')) rest

/-- Whether a host is a name or an address in brackets. -/
def isHost (host : List Char) : Bool :=
  match host with
  | '[' :: inside => inside.getLast? == some ']' && isGroupedAddress inside.dropLast
  | _ => !host.any isForbiddenInHost

/-- Splits what follows a host into a port and the rest. A backslash ends a port. -/
def splitPort? (text : List Char) : Option (Option Nat × List Char) :=
  let digits := text.takeWhile Char.isDigit
  let rest := text.drop digits.length
  let port := digits.foldl (fun n c => 10 * n + (c.toNat - 48)) 0
  if port < 65536 && (rest.isEmpty || rest.head? == some '\\') then
    some (if digits.isEmpty then none else some port, rest)
  else none

/-! ## Path and query -/

/-- Whether a segment stands for the path so far. -/
def isSelf (segment : List Char) : Bool :=
  [".", "%2e"].contains (String.ofList (segment.map Char.toLower))

/-- Whether a segment stands for the path so far without its last segment. -/
def isParent (segment : List Char) : Bool :=
  ["..", ".%2e", "%2e.", "%2e%2e"].contains (String.ofList (segment.map Char.toLower))

/-- Resolves segments behind those already resolved, of which the last comes first. At the end of a path
a segment that stands for others leaves an empty one. -/
def resolve (before : List (List Char)) : List (List Char) → List (List Char)
  | [] => before.reverse
  | segment :: rest =>
    let left := if isParent segment then before.drop 1 else before
    if isParent segment || isSelf segment then
      resolve (if rest.isEmpty then [] :: left else left) rest
    else resolve (segment :: before) rest

/-- A path of resolved segments. A first slash is added when it is missing. -/
def resolvedPath (path : List Char) : List Char :=
  match path with
  | [] => []
  | '/' :: segments => '/' :: ['/'].intercalate (resolve [] (segments.splitOn '/'))
  | segments => '/' :: ['/'].intercalate (resolve [] (segments.splitOn '/'))

/-- Splits what follows the authority into path and query. What follows a number sign does not
count. -/
def splitQuery (text : List Char) : List Char × List Char :=
  let text := text.takeWhile (· != '#')
  let path := text.takeWhile (· != '?')
  (path, (text.drop path.length).drop 1)

/-- A name or a value in a query. A plus sign is a blank. -/
def formText (cs : List Char) : String :=
  Utf8.decodeLossy (decoded (cs.map fun c => if c = '+' then ' ' else c))

/-- The fields of the query, with their values. -/
def fields (url : Url) : List (String × String) :=
  let written := (url.query.splitOn '&').filter (!·.isEmpty)
  written.map fun field =>
    let name := field.takeWhile (· != '=')
    (formText name, formText ((field.drop name.length).drop 1))

/-- The value of a field of the query. The last of several counts. -/
def field? (url : Url) (name : String) : Option String :=
  (url.fields.reverse.find? (·.1 == name)).map (·.2)

/-! ## The whole -/

/-- Splits an authority at its last at sign. Without one there are no credentials. -/
def splitCredentials (authority : List Char) : Option (List Char) × List Char :=
  let location := (authority.reverse.takeWhile (· != '@')).reverse
  if authority.contains '@' then (some (authority.take (authority.length - location.length - 1)), location)
  else (none, location)

/-- Reads a URL with an authority, whose scheme is known. Credentials and ports need a host. -/
def ofAuthority? (scheme text : List Char) : Option Url :=
  let authority := text.takeWhile fun c => c != '/' && c != '?' && c != '#'
  let after := text.drop authority.length
  let (credentials, location) := splitCredentials authority
  let username := (credentials.getD []).takeWhile (· != ':')
  let password := ((credentials.getD []).drop username.length).drop 1
  let host := hostPart false location
  let bare := credentials == some [] && location.isEmpty && !after.isEmpty
  let hostless := host.isEmpty && (!location.isEmpty || !username.isEmpty || !password.isEmpty)
  if bare || hostless || !isHost host then none
  else do
    let (port, rest) ← splitPort? ((location.drop host.length).drop 1)
    let (path, query) := splitQuery (rest ++ after)
    return {
      scheme, username, password := if password.isEmpty then none else some password, host, port,
      path := resolvedPath path, query }

/-- Reads a URL. -/
def parse? (text : String) : Option Url := do
  let (scheme, rest) ← splitScheme? (significant text.toList)
  match rest with
  | '/' :: '/' :: rest => ofAuthority? scheme rest
  | _ =>
    let (path, query) := splitQuery rest
    return {
      scheme, username := [], password := none, host := [], port := none,
      path := if path.head? == some '/' then resolvedPath path else path, query }

end Url

end WatchedStore.Remote
