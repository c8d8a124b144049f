import WatchedStore.Remote.Datum

/-!
# How talking to a server fails

A failure is of a class, carries a description or comes from the connection itself. Failures of the
connection and of the client become connection errors; all others, refused credentials apart, are the
answer to a command.
-/

namespace WatchedStore.Remote

/-- A failure on the way to a server or back. -/
inductive Failure where
  /-- A failure of a class, described in general and perhaps in detail. -/
  | classified (className description : String) (detail : Option String)
  /-- An error of the server whose code is not known. -/
  | extension (code : String) (detail : Option String)
  /-- A failure of the connection. -/
  | connection (reason : String)

namespace Failure

/-- The failure in words. -/
def message : Failure → String
  | .classified className description none => description ++ "- " ++ className
  | .classified className description (some detail) =>
    description ++ " - " ++ className ++ ": " ++ detail
  | .extension code detail =>
    code ++ ": " ++ detail.getD "Unknown extension error encountered"
  | .connection reason => reason

/-- The failure as an error of the store. -/
def toError (f : Failure) : Error :=
  match f with
  | .classified "AuthenticationFailed" _ _ => .authentication f.message
  | .classified "IoError" _ _ => .connection f.message
  | .classified "ClientError" _ _ => .connection f.message
  | .classified .. => .command f.message
  | .extension .. => .command f.message
  | .connection _ => .connection f.message

/-- An error that a server signalled. -/
def ofServer (e : ServerError) : Failure :=
  match e.className? with
  | some className => .classified className "An error was signalled by the server" e.detail
  | none => .extension e.code e.detail

/-- An answer of another type than the wanted one. -/
def wrongType (reason : String) (d : Datum) : Failure :=
  .classified "TypeError" "Response was of incompatible type"
    (some (Text.quote reason ++ " (response was " ++ d.debugText ++ ")"))

/-- A text in an answer that is not UTF-8. -/
def notUtf8 : Failure := .classified "TypeError" "Invalid UTF-8" none

/-- The answer to a commit that is neither a list nor nil. -/
def badCommit : Failure :=
  .classified "ResponseError" "Invalid response when parsing multi response" none

/-- A connection that was closed. -/
def closed : Failure := .connection "broken pipe"

/-- An answer that never came. -/
def silence : Failure := .connection "timed out"

/-- An address that cannot be used. -/
def badAddress (description : String) : Failure :=
  .classified "InvalidClientConfig" description none

end Failure

end WatchedStore.Remote
