import WatchedStore.Memory.Store
import WatchedStore.Program
import WatchedStore.Settings.Basic

/-!
# A store in memory over time

A host gives a store a clock, a timer, regular clean-ups and a log. Deadlines are measured by the clock.
Delays and the intervals between clean-ups are measured by the timer, which moves in whole milliseconds
and only while something waits; the clean-ups that fall due meanwhile take place at the clock's present
reading. The first one comes one interval after the start. A clean-up that meets a poisoned lock is the
last.
-/

namespace WatchedStore.Memory

/-- The clean-ups to come: when the next one is due by the timer, and how far they are apart, both in
nanoseconds. -/
structure Schedule where
  due : Nat
  interval : Nat

/-- A store with clock, timer, clean-ups and log. -/
structure Host where
  settings : MemorySettings
  store : Store
  now : Instant := 0
  timer : Nat := 0
  cleanups : Option Schedule := none
  events : Array Event := #[]

namespace Host

/-- Which part reports the store's events. -/
def source : String := "kv_atomic::storage::memory"

/-- Adds an event to the log. -/
def note (e : Event) (h : Host) : Host := { h with events := h.events.push e }

/-- An empty store. Clean-ups need a scheduler to run on, and an interval that is not zero. -/
def ofSettings (settings : MemorySettings) (hasScheduler : Bool) : Host :=
  let h : Host := { settings, store := { maxEntries := settings.maxEntries } }
  let interval := settings.cleanupInterval.nanoseconds
  if !settings.cleanup then h
  else if !hasScheduler then
    h.note ⟨.warn, source, "No tokio runtime available, expired entries are purged lazily", []⟩
  else if interval = 0 then h
  else { h with cleanups := some ⟨interval, interval⟩ }

/-- Runs one clean-up. -/
def cleanUp (h : Host) : Host :=
  if h.store.poisoned then { h with cleanups := none }
  else
    let (purged, store) := h.store.cleanUp h.now
    let h := { h with store }
    if purged = 0 then h
    else
      h.note ⟨.debug, source, "Purged expired in-memory entries",
        [("purged", .bare (Numeral.text purged))]⟩

/-- Moves the timer to a later reading. Of the clean-ups that fall due only the first one finds anything,
since the clock stands still. -/
def timerTo (reading : Nat) (h : Host) : Host :=
  let h := { h with timer := reading }
  match h.cleanups with
  | none => h
  | some ⟨due, interval⟩ =>
    if due ≤ reading then
      { h with cleanups := some ⟨due + interval * ((reading - due) / interval + 1), interval⟩ }.cleanUp
    else h

/-- The first whole millisecond at or after a reading of the timer. -/
def roundUp (reading : Nat) : Nat := (reading + 999999) / 1000000 * 1000000

/-- Waits until the timer has moved on by a span. -/
def wait (d : Duration) (h : Host) : Host := h.timerTo (roundUp (h.timer + d.nanoseconds))

/-- Lets the clock move on by a span, with the timer standing still. -/
def sleep (d : Duration) (h : Host) : Host := { h with now := h.now + d.nanoseconds }

/-- How programs run on a host. -/
def backend : Backend Host Transaction where
  answer := fun c h =>
    let (answer, store) := h.store.call h.now c
    (answer, { h with store })
  wait := wait
  note := note

end Host

end WatchedStore.Memory
