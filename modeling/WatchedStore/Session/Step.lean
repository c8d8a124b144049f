import WatchedStore.Cache.Manager
import WatchedStore.Cache.Value
import WatchedStore.Counter.Basic
import WatchedStore.Interference

/-!
# Steps of a session

A session runs steps one after the other against one store. Steps name what earlier steps have made: open
transactions, counters, cache managers and regions. Every step has an outcome.
-/

namespace WatchedStore.Session

/-- What names a transaction, counter, manager or region. -/
abbrev ObjectId := String

/-- An operation of a counter. -/
inductive CounterOperation where
  | key
  | get
  | set (value : Int64)
  | getAndSet (value : Int64)
  | incrementAndGet
  | decrementAndGet
  | addAndGet (delta : Int64)
  | getAndIncrement
  | getAndDecrement
  | getAndAdd (delta : Int64)
  | compareAndSet (expect update : Int64)

/-- An operation of a cache region. -/
inductive RegionOperation where
  | info
  | storageKey (key : String)
  | getRaw (key : String)
  | put (key : String) (value : Cache.Value)
  | get (key : String) (form : Cache.Form)
  | evict (key : String)
  | clear

/-- A step; `ε` are those that only one kind of store knows. -/
inductive Step (ε : Type) where
  | request (r : Request)
  | watch (id : ObjectId) (keys : List String)
  | txGet (id : ObjectId) (key : String)
  | txExec (id : ObjectId) (commands : List Command)
  | txDiscard (id : ObjectId)
  | txDebug (id : ObjectId)
  | newCounter (id : ObjectId) (key : String) (settings : CounterSettings) (init : Counter.Initialization)
  | counter (id : ObjectId) (operation : CounterOperation)
  | newManager (id : ObjectId) (settings : CacheSettings) (strategy : Option Cache.PrefixStrategy)
  | changeStrategy (id : ObjectId) (strategy : Cache.PrefixStrategy)
  | managedRegion (id : ObjectId) (name : String) (as : ObjectId)
  | regionNames (id : ObjectId)
  | expirationFor (id : ObjectId) (name : String)
  | newRegion (id : ObjectId) (r : Cache.Region)
  | region (id : ObjectId) (operation : RegionOperation)
  | sameRegion (id other : ObjectId)
  | arm (h : Hook)
  | armed
  | other (step : ε)

/-- What a step comes to. -/
inductive Outcome where
  | done
  | truth (b : Bool)
  | integer (n : Int64)
  | count (n : Nat)
  | text (s : String)
  | texts (items : List String)
  | data (b : Option Bytes)
  | members (items : List Bytes)
  | replies (items : List Reply)
  | transacted (items : Option (List Reply))
  | span (d : Option Duration)
  | region (r : Cache.Region)
  | cached (value : Option Cache.Reading)
  | memorySettings (s : MemorySettings)
  | failed (e : Error)
  | noSuchId

/-- The outcome of something that may fail. -/
def Outcome.ofExcept (outcome : α → Outcome) : Except Error α → Outcome
  | .ok a => outcome a
  | .error e => .failed e

/-- The outcome of a request. -/
def Outcome.ofAnswer : (r : Request) → r.Answer → Outcome
  | .get _, b => .data b
  | .getSet .., b => .data b
  | .set .., () => .done
  | .increment .., n => .integer n
  | .decrement .., n => .integer n
  | .expire .., b => .truth b
  | .contains _, b => .truth b
  | .delete _, b => .truth b
  | .setAdd .., b => .truth b
  | .setRemove .., b => .truth b
  | .setMembers _, items => .members (items.mergeSort fun a b => compare a b != .gt)
  | .batch _, items => .replies items

end WatchedStore.Session
