import WatchedStore.Counter.Codec
import WatchedStore.Program
import WatchedStore.Settings.Basic

/-!
# Atomic counters

A counter is a key that holds a decimal integer. It keeps no value of its own; the store is the only
source of truth.

Plain arithmetic is a single request. The operations that have to know the value before (`getAndAdd`,
`compareAndSet`) run in rounds: watch the key, read it, queue one write, and commit, which succeeds only
if nobody changed the key since it was watched. `getAndAdd` starts another round after a commit that was
refused, as long as its policy allows; `compareAndSet` makes one round.
-/

namespace WatchedStore

/-- A counter on a key. `draw` is the random share that shortens the delay after so many attempts. -/
structure Counter where
  key : String
  retry : RetryPolicy
  draw : Nat → Float

namespace Counter

/-- Which part reports a counter's events. -/
def source : String := "kv_atomic::counter"

/-- An operation that was carried out, and the value it set or answers. -/
def operated (c : Counter) (operation : String) (value : Int64) : Event :=
  ⟨.trace, source, "Counter operation",
    [("key", .quoted c.key), ("operation", .quoted operation),
      ("value", .bare (Numeral.text value.toInt))]⟩

/-- What was read under the key, as an integer. -/
def ofStored (c : Counter) : Option Bytes → Except Error Int64
  | some b => decode c.key b
  | none => .error (.keyNotFound c.key)

/-! ## Single requests -/

/-- The current value. -/
def get (c : Counter) : Action τ Int64 := do
  Action.ofExcept (c.ofStored (← Action.request (.get c.key)))

/-- Overwrites the value. -/
def set (c : Counter) (value : Int64) : Action τ Unit := do
  Action.request (.set c.key (encode value) none)
  Action.report (c.operated "set" value)

/-- Overwrites the value and answers the one before. If there was none, or no integer, the new value has
been written all the same. -/
def getAndSet (c : Counter) (value : Int64) : Action τ Int64 := do
  Action.ofExcept (c.ofStored (← Action.request (.getSet c.key (encode value))))

/-- Adds one and answers the sum. -/
def incrementAndGet (c : Counter) : Action τ Int64 := do
  let value ← Action.request (.increment c.key 1)
  Action.report (c.operated "increment_and_get" value)
  return value

/-- Subtracts one and answers the difference. -/
def decrementAndGet (c : Counter) : Action τ Int64 := do
  let value ← Action.request (.decrement c.key 1)
  Action.report (c.operated "decrement_and_get" value)
  return value

/-- Adds an amount and answers the sum. -/
def addAndGet (c : Counter) (delta : Int64) : Action τ Int64 := do
  let value ← Action.request (.increment c.key delta)
  Action.report (c.operated "add_and_get" value)
  return value

/-! ## Rounds -/

/-- Reads the value inside a transaction, and gives the transaction up if there is none. -/
def readWatched (c : Counter) (tx : τ) : Action τ Int64 := do
  let value ← Action.attempt do
    Action.ofExcept (c.ofStored (← Action.call (.txGet tx c.key)))
  match value with
  | .ok n => return n
  | .error e =>
    Action.callIgnoring (.discard tx)
    throw e

/-- One attempt to add: the value before, or `none` if the commit was refused. -/
def addRound (c : Counter) (delta : Int64) : Action τ (Option Int64) := do
  let tx ← Action.call (.watch [c.key])
  let previous ← c.readWatched tx
  match ← Action.call (.exec tx [.increment c.key delta]) with
  | none => return none
  | some replies =>
    discard (Action.ofExcept (Reply.check replies))
    Action.report (c.operated "get_and_add" previous)
    return some previous

/-- An attempt to add that was refused and has another one behind it. -/
def retrying (c : Counter) (counted : Backoff) (delay : Duration) : Event :=
  ⟨.debug, source, "get-and-add aborted by a concurrent write, retrying",
    [("key", .bare c.key), ("attempt", .bare (Numeral.text counted.attempts)),
      ("delay", .bare delay.text)]⟩

/-- The last attempt to add, which was refused. -/
def gaveUp (c : Counter) (counted : Backoff) : Event :=
  ⟨.warn, source, "get-and-add gave up after repeated concurrent writes",
    [("key", .bare c.key), ("attempts", .bare (Numeral.text counted.attempts))]⟩

/-- Attempts to add until a commit succeeds or the backoff hands out no other delay. -/
def addRounds (c : Counter) (delta : Int64) (b : Backoff) : Action τ Int64 := do
  match ← c.addRound delta with
  | some previous => return previous
  | none =>
    match _ : b.next (c.draw (b.attempts + 1)) with
    | (some delay, counted) =>
      Action.report (c.retrying counted delay)
      Action.pause delay
      c.addRounds delta counted
    | (none, counted) =>
      Action.report (c.gaveUp counted)
      throw (.transactionAborted c.key counted.attempts)
termination_by b.left
decreasing_by
  have hleft := Backoff.left_of_next ‹_›
  omega

/-- Adds an amount and answers the value before. That value was read under the watch, so the commit added
to exactly it. -/
def getAndAdd (c : Counter) (delta : Int64) : Action τ Int64 := c.addRounds delta ⟨c.retry, 0⟩

/-- Adds one and answers the value before. -/
def getAndIncrement (c : Counter) : Action τ Int64 := c.getAndAdd 1

/-- Subtracts one and answers the value before. -/
def getAndDecrement (c : Counter) : Action τ Int64 := c.getAndAdd (-1)

/-- Sets the value if it equals `expect`, in one attempt. `false` means that it did not, or that the
commit was refused; in neither case has anything been written. -/
def compareAndSet (c : Counter) (expect update : Int64) : Action τ Bool := do
  let expected : String × FieldValue := ("expect", .bare (Numeral.text expect.toInt))
  let tx ← Action.call (.watch [c.key])
  let current ← c.readWatched tx
  if current != expect then
    Action.call (.discard tx)
    Action.report
      ⟨.debug, source, "compare-and-set value mismatch",
        [("key", .bare c.key), expected, ("current", .bare (Numeral.text current.toInt))]⟩
    return false
  match ← Action.call (.exec tx [.set c.key (encode update) none]) with
  | some replies =>
    discard (Action.ofExcept (Reply.check replies))
    Action.report (c.operated "compare_and_set" update)
    return true
  | none =>
    Action.report
      ⟨.debug, source, "compare-and-set aborted by a concurrent write",
        [("key", .bare c.key), expected, ("update", .bare (Numeral.text update.toInt))]⟩
    return false

/-! ## Construction -/

/-- What a counter does with its key when it is made. -/
inductive Initialization where
  /-- Keeps the value, or writes zero if there is none. -/
  | existingOrZero
  /-- Overwrites whatever is there. -/
  | value (n : Int64)
  deriving DecidableEq

/-- Binds a counter to a key, which must not be empty. -/
def create (key : String) (settings : CounterSettings) (init : Initialization)
    (draw : Nat → Float) : Action τ Counter := do
  if key.isEmpty then throw (.configuration "counter key must not be empty")
  let c : Counter := { key, retry := settings.retry, draw }
  match init with
  | .existingOrZero =>
    if (← Action.request (.get c.key)).isNone then
      Action.report
        ⟨.debug, source, "Counter key absent, initializing to 0", [("key", .bare c.key)]⟩
      c.set 0
  | .value n => c.set n
  return c

end Counter

end WatchedStore
