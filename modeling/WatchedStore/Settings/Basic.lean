import Std.Data.ExtTreeMap.Basic
import WatchedStore.RetryPolicy

/-!
# Settings

What can be set for the two kinds of store, for counters and for caches, and the values that hold where
nothing is set.
-/

namespace WatchedStore

/-- The address of a remote store where none is set. -/
def RemoteSettings.defaultUrl : String := "redis://127.0.0.1:6379"

/-- How long to wait for a connection where nothing is set. -/
def RemoteSettings.defaultTimeout : Duration := .ofSeconds 2

/-- Settings of a remote store. -/
structure RemoteSettings where
  url : String := RemoteSettings.defaultUrl
  /-- How long to wait for a connection, also for one of a transaction. -/
  connectionTimeout : Duration := RemoteSettings.defaultTimeout

/-- How many keys a store in memory holds where nothing is set. -/
def MemorySettings.defaultEntries : Nat := 10000

/-- Whether there are clean-ups where nothing is set. -/
def MemorySettings.defaultCleanup : Bool := true

/-- The time between clean-ups where nothing is set. -/
def MemorySettings.defaultInterval : Duration := .ofSeconds 60

/-- Settings of a store in memory. -/
structure MemorySettings where
  /-- How many keys the store holds at most. -/
  maxEntries : Nat := MemorySettings.defaultEntries
  /-- Whether keys whose time is over are removed at regular intervals. -/
  cleanup : Bool := MemorySettings.defaultCleanup
  cleanupInterval : Duration := MemorySettings.defaultInterval

/-- Settings of a counter. -/
structure CounterSettings where
  retry : RetryPolicy := .standard

/-- What separates a region's name from a key where nothing is set. -/
def CacheSettings.defaultDelimiter : String := ":"

/-- Settings of a cache manager. -/
structure CacheSettings where
  /-- Whether each region puts a prefix before its keys. -/
  usePrefix : Bool := false
  /-- What separates a region's name from a key. -/
  delimiter : String := CacheSettings.defaultDelimiter
  /-- How long entries live in regions without a span of their own; no time at all means for good. -/
  defaultExpiration : Duration := .zero
  /-- The spans of single regions, by name. -/
  expirations : Std.ExtTreeMap String Duration := ∅

end WatchedStore
