import WatchedStore.Memory.Host
import WatchedStore.Session.Run

/-!
# Sessions in memory

A session on a store in memory can also ask for the store's settings, let time pass, and see after every
step how many keys are stored.
-/

namespace WatchedStore.Session

/-- The steps of a store in memory. -/
inductive MemoryStep where
  | isEmpty
  | settings
  /-- The clock moves on. -/
  | sleep (d : Duration)
  /-- The timer moves on. -/
  | advance (d : Duration)

/-- Runs a step of a store in memory. -/
def MemoryStep.run (h : Memory.Host) : MemoryStep → Outcome × Memory.Host
  | .isEmpty => (.ofExcept (fun n => .truth (n == 0)) h.store.size, h)
  | .settings => (.memorySettings h.settings, h)
  | .sleep d => (.done, h.sleep d)
  | .advance d => (.done, h.timerTo (h.timer + d.nanoseconds))

/-- What sessions need to know of a store in memory. -/
def memoryGround : Ground Memory.Host Memory.Transaction MemoryStep where
  backend := Memory.Host.backend
  describe := fun tx => Text.bracketed (tx.watched.map fun (key, _) => Text.quote key)
  other := fun s h => s.run h
  takeEvents := fun h => (h.events.toList, { h with events := #[] })

/-- How a store in memory is made. -/
inductive MemoryOrigin where
  /-- With settings, where clean-ups can be scheduled. -/
  | scheduled (s : MemorySettings)
  /-- With settings, where they cannot. -/
  | unscheduled (s : MemorySettings)

/-- The new store. -/
def MemoryOrigin.host : MemoryOrigin → Memory.Host
  | .scheduled s => .ofSettings s true
  | .unscheduled s => .ofSettings s false

/-- Runs a session in memory: the events of the store's making, and the steps with the number of keys
after each. -/
def playMemory (origin : MemoryOrigin) (steps : List (Step MemoryStep)) :
    List Event × List (Entry (Except Error Nat)) :=
  let (events, host) := memoryGround.takeEvents origin.host
  let entries := play memoryGround (fun () => id) (fun h => (h.store.size, h))
    (steps.map fun s => ((), s)) { store := { base := host } }
  (events, entries)

end WatchedStore.Session
