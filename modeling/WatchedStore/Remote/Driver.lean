import WatchedStore.Program
import WatchedStore.Remote.Failure
import WatchedStore.Remote.Wire

/-!
# Clients of a remote store over a driver

A client leaves the talking to a driver. The driver opens connections, writes most of the direct requests
and sends what the client has queued; it reads the server's answers and says how they look in messages.
What is the client's own is which commands go out over which connection, what becomes of the answers, and
what is reported.

All direct requests share one connection. Every transaction has a connection of its own, since the server
watches keys for the connection that asks for it.
-/

namespace WatchedStore.Remote

/-- An open transaction: its connection and the keys it watches. -/
structure Transaction where
  connection : Nat
  keys : List String

/-- How a driver reads the answer to a direct request, by what the client wants. -/
structure Readings where
  bytes? : Datum → Except Failure (Option Bytes)
  integer : Datum → Except Failure Int64
  truth : Datum → Except Failure Bool
  members : Datum → Except Failure (List Bytes)

/-- **A driver**, whose states are `σ`. -/
structure Driver (σ : Type) where
  helpers : Helpers
  readings : Readings
  display : Display
  /-- The connection of direct requests. -/
  shared : σ → Nat
  /-- Opens a connection. -/
  connect : σ → Except Error Nat × σ
  /-- Sends a command over a connection and takes the answer to it. -/
  send : Nat → WireCommand → σ → Except Failure Datum × σ
  /-- Sends commands over a connection and takes an answer to each. -/
  query : Nat → List WireCommand → σ → Except Failure (List Datum) × σ
  /-- Sends commands as a whole over a connection and takes their results, or `none` if they were
  refused. -/
  commit : Nat → List WireCommand → σ → Except Failure (Option (List Datum)) × σ
  /-- Reports an event. -/
  note : Event → σ → σ

namespace Driver

variable {σ : Type}

/-- Which part reports a client's events. -/
def source : String := "kv_atomic::storage::redis"

/-- Sends one command and reads its answer. -/
def command (d : Driver σ) (connection : Nat) (w : WireCommand) (read : Datum → Except Failure α)
    (s : σ) : Except Error α × σ :=
  let (result, s) := d.send connection w s
  ((result.bind read).mapError Failure.toError, s)

/-- Reports a request and whether it succeeded. -/
def traced (d : Driver σ) (operation key : String) (result : Except Error α × σ) : Except Error α × σ :=
  let success := if result.1.isOk then "true" else "false"
  (result.1, d.note ⟨.trace, source, "Storage operation",
    [("operation", .quoted operation), ("key", .quoted key), ("success", .bare success)]⟩ result.2)

/-- Sends queued commands and reads a reply to each. -/
def batch (d : Driver σ) (commands : List Command) (s : σ) : Except Error (List Reply) × σ :=
  match d.query (d.shared s) (commands.map Command.wire) s with
  | (.ok data, s) => (Datum.toReplies d.display data, s)
  | (.error f, s) => (.error f.toError, s)

/-- Whether the integer in an answer is positive. -/
def positive (d : Driver σ) (answer : Datum) : Except Failure Bool :=
  (fun n => decide (0 < n)) <$> d.readings.integer answer

/-- Answers a direct request. -/
def request (d : Driver σ) (r : Request) (s : σ) : Except Error r.Answer × σ :=
  let send {α : Type} (w : WireCommand) (read : Datum → Except Failure α) : Except Error α × σ :=
    d.command (d.shared s) w read s
  match r with
  | .get key => d.traced "GET" key (send (d.helpers.get key) d.readings.bytes?)
  | .set key value ttl => d.traced "SET" key (send (setWire key value ttl) fun _ => .ok ())
  | .getSet key value => d.traced "GETSET" key (send (d.helpers.getSet key value) d.readings.bytes?)
  | .increment key amount =>
    d.traced "INCRBY" key (send (d.helpers.increment key amount) d.readings.integer)
  | .decrement key amount =>
    d.traced "DECRBY" key (send (d.helpers.decrement key amount) d.readings.integer)
  | .expire key ttl => send (expireWire key ttl) d.readings.truth
  | .contains key => send (d.helpers.contains key) d.readings.truth
  | .delete key => send (d.helpers.delete key) d.positive
  | .setAdd key member => send (d.helpers.setAdd key member) d.positive
  | .setRemove key member => send (d.helpers.setRemove key member) d.positive
  | .setMembers key => send (d.helpers.setMembers key) d.readings.members
  | .batch commands => d.batch commands s

/-- Opens a transaction on a new connection. -/
def watch (d : Driver σ) (keys : List String) (s : σ) : Except Error Transaction × σ :=
  match d.connect s with
  | (.error e, s) => (.error e, s)
  | (.ok connection, s) =>
    let (result, s) := d.command connection (watchWire keys) (fun _ => .ok ()) s
    (result.map fun () => ⟨connection, keys⟩, s)

/-- Commits queued commands. -/
def exec (d : Driver σ) (tx : Transaction) (commands : List Command) (s : σ) :
    Except Error (Option (List Reply)) × σ :=
  match d.commit tx.connection (commands.map Command.wire) s with
  | (.error f, s) => (.error f.toError, s)
  | (.ok (some results), s) => (some <$> Datum.toReplies d.display results, s)
  | (.ok none, s) =>
    (.ok none, d.note ⟨.debug, source, "EXEC aborted by a concurrent write",
      [("keys", .bare (Text.bracketed (tx.keys.map Text.quote)))]⟩ s)

/-- Answers a call. -/
def call (d : Driver σ) (call : Call Transaction) (s : σ) : Except Error call.Answer × σ :=
  match call with
  | .request r => d.request r s
  | .watch keys => d.watch keys s
  | .txGet tx key => d.command tx.connection (d.helpers.get key) d.readings.bytes? s
  | .exec tx commands => d.exec tx commands s
  | .discard tx => d.command tx.connection [textArgument "UNWATCH"] (fun _ => .ok ()) s

end Driver

end WatchedStore.Remote
