import WatchedStore.Memory.State

/-!
# A store in memory

A store holds at most so many keys. Operations hold its lock while they run; one that crashes leaves the
lock poisoned, and from then on every operation fails.
-/

namespace WatchedStore.Memory

/-- An open transaction: the watched keys and the versions they had. -/
structure Transaction where
  watched : List (String × Nat)

/-- Contents, capacity, and whether an operation crashed while it held the lock. -/
structure Store where
  state : State := {}
  maxEntries : Nat
  poisoned : Bool := false

namespace Store

/-- The failure of everything that needs a poisoned lock. -/
def lockPoisoned : Error := .internal "memory storage lock poisoned"

/-- Runs an operation under the lock. -/
def locked (f : State → Except Error α × State) (s : Store) : Except Error α × Store :=
  if s.poisoned then (.error lockPoisoned, s)
  else
    let (result, state) := f s.state
    let crashed :=
      match result with
      | .error (.crash _) => true
      | _ => false
    (result, { s with state, poisoned := crashed })

/-- Answers a direct request at a reading of the clock. -/
def request (now : Instant) (s : Store) : (r : Request) → Except Error r.Answer × Store
  | .get key => s.locked (·.read key now)
  | .set key value ttl => s.locked (·.set key value ttl s.maxEntries now)
  | .getSet key value => s.locked (·.getSet key value s.maxEntries now)
  | .increment key amount => s.locked (·.increment key amount s.maxEntries now)
  | .decrement key amount =>
    match Numeral.neg? amount with
    | some negated => s.locked (·.increment key negated s.maxEntries now)
    | none => (.error .notAnInteger, s)
  | .expire key ttl => s.locked (·.expire key ttl now)
  | .contains key => s.locked (·.contains key now)
  | .delete key => s.locked (·.delete key now)
  | .setAdd key member => s.locked (·.setAdd key member s.maxEntries now)
  | .setRemove key member => s.locked (·.setRemove key member now)
  | .setMembers key => s.locked (·.setMembers key now)
  | .batch commands => s.locked (·.applyAll commands s.maxEntries now)

/-- Answers a call at a reading of the clock. -/
def call (now : Instant) (s : Store) : (c : Call Transaction) → Except Error c.Answer × Store
  | .request r => s.request now r
  | .watch keys =>
    s.locked fun state =>
      let (watched, state) := state.watch keys now
      (.ok ⟨watched⟩, state)
  | .txGet _ key => s.locked (·.read key now)
  | .exec tx commands => s.locked (·.exec tx.watched commands s.maxEntries now)
  | .discard _ => (.ok (), s)

/-- How many keys are stored, those included whose time is over. -/
def size (s : Store) : Except Error Nat :=
  if s.poisoned then .error lockPoisoned else .ok s.state.entries.size

/-- Removes all keys whose time is over: how many there were. -/
def cleanUp (now : Instant) (s : Store) : Nat × Store :=
  let state := s.state.purgeAll now
  (s.state.entries.size - state.entries.size, { s with state })

end Store

end WatchedStore.Memory
