import WatchedStore.Remote.Conversion
import WatchedStore.Remote.Wire

/-!
# Scripted servers

A scripted server answers each command with the next turn of its script, whichever connection the command
comes from, and keeps what it received. Once the script is used up, every command is an error.
-/

namespace WatchedStore.Remote

/-- What a server does about a command. -/
inductive Turn where
  | answer (d : Datum)
  /-- Closes the connection. -/
  | close
  /-- Never answers. -/
  | stall

/-- A server as clients find it: where it listens, whether it answers at all, and its script. -/
structure Server where
  address : String
  answers : Bool := true
  turns : List Turn := []

/-- The turns to come, and the commands received with the connections that they came from. -/
structure Script where
  turns : List Turn := []
  received : List (Nat × WireCommand) := []

namespace Script

/-- What a server without a script does. -/
def exhausted : Turn := .answer (.error (.ofLine "ERR script exhausted"))

/-- Receives a command. -/
def receive (s : Script) (connection : Nat) (c : WireCommand) : Turn × Script :=
  let received := s.received ++ [(connection, c)]
  match s.turns with
  | [] => (exhausted, { s with received })
  | t :: turns => (t, { turns, received })

end Script

end WatchedStore.Remote
