import WatchedStore.Cache.Value
import WatchedStore.Cache.Manager
import WatchedStore.Counter.Basic
import WatchedStore.Tool.Basic

/-!
# A tour of the library

The tour counts visits with a counter, resets it, and caches a greeting. It works on a remote store if
the environment names one, and in memory otherwise. It prints nothing but its log.
-/

namespace WatchedStore.Tool.Tour

/-- Which part reports the events of the tour. -/
def source : String := "kv_atomic"

/-- An event of the tour. -/
def event (level : Level) (message : String) (fields : List (String × FieldValue)) : Event :=
  ⟨level, source, message, fields⟩

/-- The report of the log's own start. -/
def logging : Event := ⟨.info, "kv_atomic::logging", "Logging initialized", []⟩

/-- The report of the start. -/
def starting : Event := event .info "kv_atomic demo starting up" []

/-- The report that no remote store is named. -/
def unnamed : Event := event .warn "REDIS_URL not set, using in-memory storage" []

/-- The report of the end after a failure. -/
def failure (e : Error) : Event := event .error "Demo failed" [("error", .bare e.message)]

/-- What the tour does. -/
def program (draw : Nat → Float) : Action τ Unit := do
  let visits ← Counter.create "demo:visits" {} .existingOrZero draw
  let previous ← visits.getAndIncrement
  let current ← visits.incrementAndGet
  Action.report (event .info "Counter updated"
    [("key", .quoted visits.key), ("previous", .bare (Numeral.text previous.toInt)),
      ("current", .bare (Numeral.text current.toInt))])
  let swapped ← visits.compareAndSet current 0
  Action.report (event .info "Counter reset by compare-and-set"
    [("key", .quoted visits.key), ("swapped", .bare (if swapped then "true" else "false"))])
  let (region, _) ← ExceptT.lift ((Cache.Manager.ofSettings {}).region "demo:greetings")
  let greetings ← Action.ofExcept region
  greetings.putValue "en" (.string "hello")
  let cached ← greetings.get Json.Reader.string "en"
  let shown := cached.elim "None" fun text => "Some(" ++ Text.quote text ++ ")"
  Action.report (event .info "Cache round trip"
    [("cache", .quoted greetings.name), ("cached", .bare shown)])

/-- Opens the store, and reports that it is in memory. -/
def openStore (s : Surroundings) : Except Error (Opened × List Event) :=
  if (s.environment.text? "REDIS_URL").isSome then do
    return (← s.connect (← s.remoteSettings none), [])
  else return (.memory (.ofSettings {} true), [unnamed])

/-- The events that are shown. -/
def filter (s : Surroundings) : LogFilter :=
  ((s.environment.text? "RUST_LOG").bind LogFilter.parse?).getD (.ofLevel .info)

/-- Takes the tour. -/
def carryOut (s : Surroundings) : Ended :=
  match openStore s with
  | .error e =>
    { exit := failed, output := .lines [], events := [failure e], script := s.untouched }
  | .ok (store, opening) =>
    let (result, store) := store.run (program s.draw)
    let ended : Ended :=
      { output := .lines [], events := opening ++ store.events, script := s.after store }
    match result with
    | .ok () => ended
    | .error e => { ended with exit := failed, events := ended.events ++ [failure e] }

/-- Runs the tool. -/
def run (s : Surroundings) : Ended :=
  let ended := carryOut s
  { ended with events := (logging :: starting :: ended.events).filter (filter s).shows }

end WatchedStore.Tool.Tour
