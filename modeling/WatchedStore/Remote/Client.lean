import WatchedStore.Remote.Address
import WatchedStore.Remote.Driver
import WatchedStore.Remote.Script
import WatchedStore.Settings.Basic

/-!
# A client and its server

A client here talks to a scripted server. Its driver numbers the connections in the order in which they are
made, and makes the one of direct requests anew when it was closed. An error of the server that hides
anywhere in the answers to a batch fails the whole batch.
-/

namespace WatchedStore.Remote

/-- A client and the server it talks to. -/
structure Client where
  settings : RemoteSettings
  script : Script := {}
  /-- The connection of direct requests. -/
  shared : Nat := 0
  /-- The number of the next connection. -/
  next : Nat := 1
  closed : List Nat := []
  events : Array Event := #[]

namespace Client

/-- Adds an event to the log. -/
def note (e : Event) (c : Client) : Client := { c with events := c.events.push e }

/-- Takes a connection out of use; the shared one is replaced at once. -/
def close (connection : Nat) (c : Client) : Client :=
  let c := { c with closed := connection :: c.closed }
  if connection = c.shared then { c with shared := c.next, next := c.next + 1 } else c

/-- Sends commands and reads an answer to each. -/
def exchangeOpen (connection : Nat) : List WireCommand → Client → Except Failure (List Datum) × Client
  | [], c => (.ok [], c)
  | w :: rest, c =>
    let (turn, script) := c.script.receive connection w
    let c := { c with script }
    match turn with
    | .close => (.error .closed, c.close connection)
    | .stall => (.error .silence, c)
    | .answer d =>
      match exchangeOpen connection rest c with
      | (.ok data, c) => (.ok (d :: data), c)
      | (.error f, c) => (.error f, c)

/-- Sends commands over a connection, if it is still in use. -/
def exchange (connection : Nat) (ws : List WireCommand) (c : Client) :
    Except Failure (List Datum) × Client :=
  if c.closed.contains connection then (.error .closed, c) else exchangeOpen connection ws c

/-- Data none of which may hold an error of the server. -/
def readAll (data : List Datum) : Except Failure (List Datum) :=
  match Datum.firstErrorOf? data with
  | some e => .error (.ofServer e)
  | none => .ok data

/-- The only answer to a command. -/
def readOne (data : List Datum) : Except Failure Datum := do
  match ← readAll data with
  | [d] => .ok d
  | _ => .error .closed

/-- What a commit's answers say: the results, or `none` if it was refused. Of the answers before the
last one only an error counts. -/
def readCommit (data : List Datum) : Except Failure (Option (List Datum)) :=
  match data.getLast? with
  | none => .ok (some [])
  | some last =>
    match Datum.firstErrorOf? data.dropLast with
    | some e => .error (.ofServer e)
    | none =>
      match last with
      | .array results => some <$> readAll results
      | .nil => .ok none
      | _ => .error .badCommit

/-- Sends commands over a connection and reads the answers as a whole. -/
def converse (connection : Nat) (ws : List WireCommand) (read : List Datum → Except Failure α)
    (c : Client) : Except Failure α × Client :=
  let (result, c) := c.exchange connection ws
  (result.bind read, c)

/-- How answers to direct requests are read. -/
def readings : Readings where
  bytes? := Datum.toBytes?
  integer := Datum.toInteger
  truth := Datum.toBool
  members := Datum.toByteStrings

/-- **The driver of clients.** A commit of nothing is not sent. -/
def driver : Driver Client where
  helpers := .standard
  readings := readings
  display := .standard
  shared := shared
  connect := fun c => (.ok c.next, { c with next := c.next + 1 })
  send := fun connection w c => c.converse connection [w] readOne
  query := fun connection ws c => c.converse connection ws readAll
  commit := fun connection ws c =>
    if ws.isEmpty then (.ok (some []), c) else c.converse connection (committed ws) readCommit
  note := note

/-- Answers a call. -/
def call (c : Client) (call : Call Transaction) : Except Error call.Answer × Client :=
  driver.call call c

/-- How programs run on a client. -/
def backend : Backend Client Transaction where
  answer := fun call c => c.call call
  wait := fun _ c => c
  note := note

/-! ## The connection itself -/

/-- The failure to connect in time. -/
def unreached (settings : RemoteSettings) : Error :=
  .connection ("Connection to Redis at " ++ settings.url ++ " timed out after "
    ++ settings.connectionTimeout.text)

/-- Connects to a server. An address that can be used but leads nowhere and a silent server are given up
when the time is over, and so is every server if there is no time at all. -/
def connect (settings : RemoteSettings) (server : Option Server) : Except Error Client :=
  match server.filter (·.address == settings.url) with
  | some server =>
    if server.answers && !settings.connectionTimeout.isZero then
      .ok { settings, script := { turns := server.turns } }
    else .error (unreached settings)
  | none =>
    match Address.check settings.url with
    | .ok () => .error (unreached settings)
    | .error f => .error (.connection f.message)

/-- Asks the server for a sign of life. -/
def ping (c : Client) : Except Error Unit × Client :=
  let (result, c) := c.converse c.shared [[textArgument "PING"]] readOne
  match result with
  | .error .silence =>
    (.error (.connection ("Redis PING operation timed out after "
      ++ c.settings.connectionTimeout.text)), c)
  | result =>
    match (result.bind Datum.toText).mapError Failure.toError with
    | .ok "PONG" => (.ok (), c)
    | .ok other => (.error (.command ("Unexpected response from Redis PING: " ++ other)), c)
    | .error e => (.error e, c)

/-- A client as a record of its settings. -/
def debugText (c : Client) : String :=
  "RedisStorage \x7b url: " ++ Text.quote c.settings.url ++ ", connection_timeout: "
    ++ c.settings.connectionTimeout.text ++ " \x7d"

/-- A transaction as a record. -/
def transactionText (tx : Transaction) : String :=
  "RedisTransaction \x7b watched: " ++ Text.bracketed (tx.keys.map Text.quote) ++ " \x7d"

end Client

end WatchedStore.Remote
