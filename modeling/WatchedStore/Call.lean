import WatchedStore.Duration
import WatchedStore.Reply

/-!
# Calls to a store

A `Request` is a direct operation; a `Command` is a step that can be queued. A `Call` is either a request
or a step of a transaction, and a store answers it at once and as a whole. What the answer is depends on
the call; any call can be answered by an error instead. `τ` is what a store hands out for an open
transaction.
-/

namespace WatchedStore

/-- A command that can be queued. -/
inductive Command where
  | get (key : String)
  | set (key : String) (value : Bytes) (ttl : Option Duration)
  | increment (key : String) (amount : Int64)
  | expire (key : String) (ttl : Duration)
  | delete (key : String)
  | setAdd (key : String) (member : Bytes)
  | setRemove (key : String) (member : Bytes)

/-- A direct operation. -/
inductive Request where
  /-- Reads the bytes under a key. -/
  | get (key : String)
  /-- Stores bytes under a key, for good or for a span of time. -/
  | set (key : String) (value : Bytes) (ttl : Option Duration)
  /-- Stores bytes for good and reads what they replace. -/
  | getSet (key : String) (value : Bytes)
  /-- Adds to the integer under a key; an absent key counts as zero. -/
  | increment (key : String) (amount : Int64)
  /-- Subtracts from the integer under a key. -/
  | decrement (key : String) (amount : Int64)
  /-- Lets a key live for a span of time from now on: whether it is there. -/
  | expire (key : String) (ttl : Duration)
  /-- Whether a key is there. -/
  | contains (key : String)
  /-- Removes a key: whether it was there. -/
  | delete (key : String)
  /-- Adds a member to a set: whether it is new. -/
  | setAdd (key : String) (member : Bytes)
  /-- Removes a member from a set: whether it was in it. -/
  | setRemove (key : String) (member : Bytes)
  /-- The members of a set. -/
  | setMembers (key : String)
  /-- Runs queued commands, one reply for each. -/
  | batch (commands : List Command)

/-- What a request is answered with. -/
def Request.Answer : Request → Type
  | .get _ | .getSet .. => Option Bytes
  | .set .. => Unit
  | .increment .. | .decrement .. => Int64
  | .expire .. | .contains _ | .delete _ | .setAdd .. | .setRemove .. => Bool
  | .setMembers _ => List Bytes
  | .batch _ => List Reply

/-- Something that is asked of a store. -/
inductive Call (τ : Type) where
  | request (r : Request)
  /-- Opens a transaction that watches keys. -/
  | watch (keys : List String)
  /-- Reads the bytes under a key inside a transaction. -/
  | txGet (tx : τ) (key : String)
  /-- Runs queued commands if no watched key has changed, and nothing otherwise. -/
  | exec (tx : τ) (commands : List Command)
  /-- Gives a transaction up. -/
  | discard (tx : τ)

/-- What a call is answered with. -/
def Call.Answer {τ : Type} : Call τ → Type
  | .request r => r.Answer
  | .watch _ => τ
  | .txGet .. => Option Bytes
  | .exec .. => Option (List Reply)
  | .discard _ => Unit

end WatchedStore
