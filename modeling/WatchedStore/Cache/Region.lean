import WatchedStore.Json.Typed
import WatchedStore.Program
import WatchedStore.Text.Utf8

/-!
# Cache regions

A region keeps JSON texts under keys of its own, which may carry a prefix, and may give each entry a span
of time to live. The storage keys it has written are the members of one set, its tracking set, so that
`clear` can remove this region's entries and no others. The set's deadline is renewed with every entry.
-/

namespace WatchedStore.Cache

/-- A named part of a store that caches values. -/
structure Region where
  name : String
  /-- What stands before every key. -/
  keyPrefix : Option String
  /-- How long an entry lives. -/
  expiration : Option Duration

namespace Region

/-- Which part reports a region's events. -/
def source : String := "kv_atomic::cache::region"

/-- Where the entry for a key is stored. -/
def storageKey (r : Region) (key : String) : String := r.keyPrefix.getD "" ++ key

/-- Where the tracking set is stored. -/
def trackingKey (r : Region) : String := r.name ++ "~keys"

/-- An event about an entry. -/
def entryEvent (r : Region) (message key : String) : Event :=
  ⟨.trace, source, message, [("cache", .bare r.name), ("key", .bare (r.storageKey key))]⟩

/-- Runs a batch, in which no command may fail. -/
def run (commands : List Command) : Action τ Unit := do
  discard (Action.ofExcept (Reply.check (← Action.request (.batch commands))))

/-- The commands that store an entry and track it. -/
def putCommands (r : Region) (key : String) (json : Bytes) : List Command :=
  [.set (r.storageKey key) json r.expiration,
    .setAdd r.trackingKey (Bytes.ofText (r.storageKey key))]
    ++ (r.expiration.map fun ttl => Command.expire r.trackingKey ttl).toList

/-- Stores a JSON text under a key. -/
def put (r : Region) (key : String) (json : Bytes) : Action τ Unit := do
  run (r.putCommands key json)
  Action.report (r.entryEvent "Cached value" key)

/-- The bytes stored for a key. -/
def getRaw (r : Region) (key : String) : Action τ (Option Bytes) :=
  Action.request (.get (r.storageKey key))

/-- The value stored for a key, read from its JSON text. -/
def get (r : Region) (reader : Json.Reader α) (key : String) : Action τ (Option α) := do
  match ← r.getRaw key with
  | none => return none
  | some bytes =>
    match reader.run bytes with
    | .ok a => return some a
    | .error p => throw (.serialization p.message)

/-- The commands that remove an entry and its trace. -/
def evictCommands (r : Region) (key : String) : List Command :=
  [.delete (r.storageKey key), .setRemove r.trackingKey (Bytes.ofText (r.storageKey key))]

/-- Removes the entry for a key. -/
def evict (r : Region) (key : String) : Action τ Unit := do
  run (r.evictCommands key)
  Action.report (r.entryEvent "Evicted value" key)

/-- The commands that remove tracked entries. -/
def clearCommands (r : Region) (members : List Bytes) : List Command :=
  members.flatMap fun member =>
    [.delete (Utf8.decodeLossy member), .setRemove r.trackingKey member]

/-- Removes every entry that the region wrote. Only the members listed at the start are untracked, so an
entry that is put meanwhile stays tracked. -/
def clear (r : Region) : Action τ Unit := do
  let members ← Action.request (.setMembers r.trackingKey)
  if members.isEmpty then return
  run (r.clearCommands members)
  Action.report
    ⟨.trace, source, "Cleared cache region",
      [("cache", .bare r.name), ("removed", .bare (Numeral.text members.length))]⟩

end Region

end WatchedStore.Cache
