import WatchedStore.Remote.Client
import WatchedStore.Session.Run

/-!
# Sessions with a scripted server

Before each step the server's script can grow. After it the commands that the server received are seen,
and how many turns of the script are left.
-/

namespace WatchedStore.Session

/-- The steps of a remote store. -/
inductive RemoteStep where
  | ping
  | debug

/-- Runs a step of a remote store. -/
def RemoteStep.run (c : Remote.Client) : RemoteStep → Outcome × Remote.Client
  | .ping =>
    let (result, c) := c.ping
    (.ofExcept (fun () => .done) result, c)
  | .debug => (.text c.debugText, c)

/-- What sessions need to know of a remote store. -/
def remoteGround : Ground Remote.Client Remote.Transaction RemoteStep where
  backend := Remote.Client.backend
  describe := Remote.Client.transactionText
  other := fun s c => s.run c
  takeEvents := fun c => (c.events.toList, { c with events := #[] })

/-- What is seen of a scripted server after a step. -/
structure Traffic where
  received : List (Nat × Remote.WireCommand)
  left : Nat

/-- Looks at the server and forgets what it received. -/
def takeTraffic (c : Remote.Client) : Traffic × Remote.Client :=
  (⟨c.script.received, c.script.turns.length⟩, { c with script := { c.script with received := [] } })

/-- Runs a session with a server. Each step comes with the turns that are added to the script before
it. -/
def playRemote (settings : RemoteSettings) (server : Remote.Server)
    (steps : List (List Remote.Turn × Step RemoteStep)) : Except Error (List (Entry Traffic)) := do
  let c ← Remote.Client.connect settings (some server)
  let extend (turns : List Remote.Turn) (c : Remote.Client) : Remote.Client :=
    { c with script := { c.script with turns := c.script.turns ++ turns } }
  return play remoteGround extend takeTraffic steps { store := { base := c } }

end WatchedStore.Session
