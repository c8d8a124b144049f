import WatchedStore.Remote.Failure
import WatchedStore.Remote.Url

/-!
# Addresses of servers

An address is a URL of a scheme for stores. It names a host, perhaps with credentials, and as its path
perhaps the number of a database; or, for a server on the same machine, the path of a socket. Only whether
an address can be used is decided here, and the first fault is the one that is reported.
-/

namespace WatchedStore.Remote.Address

/-- How a server is reached under a scheme. -/
inductive Transport where
  | plain
  | encrypted
  | socket

/-- The schemes for stores. -/
def transport? (scheme : List Char) : Option Transport :=
  match String.ofList scheme with
  | "redis" => some .plain
  | "valkey" => some .plain
  | "rediss" => some .encrypted
  | "valkeys" => some .encrypted
  | "redis+unix" => some .socket
  | "valkey+unix" => some .socket
  | "unix" => some .socket
  | _ => none

/-- The failure of an address that is no URL of a store. -/
def unparsed : Failure := .badAddress "Redis URL did not parse"

/-- Strips slashes from both ends. -/
def trimSlashes (path : List Char) : List Char :=
  ((path.dropWhile (· == '/')).reverse.dropWhile (· == '/')).reverse

/-- Whether a text is the number of a database. -/
def isDatabase (text : String) : Bool := (Numeral.readSigned (Bytes.ofText text)).isOk

/-- Whether a credential spells a text. -/
def isText (credential : List Char) : Bool := (Utf8.decode? (Url.decoded credential)).isSome

/-- Judges which version of the protocol is asked for, if any. -/
def checkProtocol (url : Url) : Except Failure Unit :=
  match url.field? "protocol" with
  | none => .ok ()
  | some version =>
    if ["2", "resp2", "3", "resp3"].contains version then .ok ()
    else .error (.classified "InvalidClientConfig" "Invalid protocol version" (some version))

/-- Judges an address that names a host. -/
def checkHost (isEncrypted : Bool) (url : Url) : Except Failure Unit :=
  let database := trimSlashes url.path
  if url.host.isEmpty then .error (.badAddress "Missing hostname")
  else if isEncrypted then
    .error (.badAddress "can't connect with TLS, the feature is not enabled")
  else if !database.isEmpty && !isDatabase (String.ofList database) then
    .error (.badAddress "Invalid database number")
  else if !isText url.username then .error (.badAddress "Username is not valid UTF-8 string")
  else if !url.password.all isText then .error (.badAddress "Password is not valid UTF-8 string")
  else checkProtocol url

/-- Judges an address that names a socket of this machine. -/
def checkSocket (url : Url) : Except Failure Unit :=
  let isHere := url.host.isEmpty || String.ofList url.host == "localhost"
  if !isHere || url.path.head? != some '/' then .error (.badAddress "Missing path")
  else if !(url.field? "db").all isDatabase then .error (.badAddress "Invalid database number")
  else checkProtocol url

/-- Whether an address can be used. -/
def check (address : String) : Except Failure Unit :=
  match Url.parse? address with
  | none => .error unparsed
  | some url =>
    match transport? url.scheme with
    | none => .error unparsed
    | some .plain => checkHost false url
    | some .encrypted => checkHost true url
    | some .socket => checkSocket url

end WatchedStore.Remote.Address
