import WatchedStore.Error

/-!
# Replies of a batch

A batch of commands is answered by one reply for each command. A command that fails puts an error into
its own place, and the commands behind it still run; `Reply.check` turns the first such error into a
failure of the whole.
-/

namespace WatchedStore

/-- The answer to one command of a batch. -/
inductive Reply where
  | nil
  | integer (n : Int64)
  | data (bytes : Bytes)
  | status (text : String)
  | array (items : List Reply)
  | error (reason : String)

namespace Reply

/-- The integer that was answered, if one was. -/
def asInteger? : Reply → Option Int64
  | .integer n => some n
  | _ => none

/-- The reason of the failure, if the command failed. -/
def asError? : Reply → Option String
  | .error reason => some reason
  | _ => none

/-- A truth value, answered as one or zero. -/
def ofBool (b : Bool) : Reply := .integer (if b then 1 else 0)

/-- The reply in the place of a command that failed. -/
def ofError : Error → Reply
  | .command reason => .error reason
  | e => .error e.message

/-- The replies, unless one of them is an error: then the first one. -/
def check (replies : List Reply) : Except Error (List Reply) :=
  match replies.findSome? asError? with
  | some reason => .error (.command reason)
  | none => .ok replies

end Reply

end WatchedStore
