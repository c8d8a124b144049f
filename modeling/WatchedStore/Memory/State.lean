import Std.Data.ExtTreeMap.Basic
import Std.Data.ExtTreeSet.Basic
import WatchedStore.Call
import WatchedStore.Counter.Codec

/-!
# The contents of a store in memory

A key holds bytes or a set of byte strings, and possibly a deadline, from which on it counts as absent.
The store notices that only when the key is touched (`purge`) or at a clean-up (`purgeAll`), so expired
entries can lie around.

Every change to what a key holds gives the key a new version, drawn from one clock. Versions outlive
their keys: a key that is deleted and made again has another version than before. So equal versions mean
that nothing happened to the key in between, which is what transactions rest on. An empty set would go
without a new version, but no operation leaves one behind.

Each operation takes the clock's reading and answers a result together with the contents afterwards.
-/

namespace WatchedStore.Memory

/-- What a key can hold. -/
inductive Value where
  | bytes (b : Bytes)
  | members (set : Std.ExtTreeSet Bytes)

/-- What a key holds, and from when on it counts as absent. -/
structure Entry where
  value : Value
  deadline : Option Instant

/-- Whether an entry's time is over. -/
def Entry.isExpired (e : Entry) (now : Instant) : Bool :=
  match e.deadline with
  | some deadline => deadline ≤ now
  | none => false

/-- The contents of a store and the versions of its keys. -/
structure State where
  entries : Std.ExtTreeMap String Entry := ∅
  versions : Std.ExtTreeMap String Nat := ∅
  clock : Nat := 0

namespace State

/-- A key's version; a key that was never changed has version zero. -/
def version (s : State) (key : String) : Nat := (s.versions[key]?).getD 0

/-- Gives a key a new version. -/
def touch (s : State) (key : String) : State :=
  { s with clock := s.clock + 1, versions := s.versions.insert key (s.clock + 1) }

/-- Stores an entry. -/
def put (s : State) (key : String) (e : Entry) : State :=
  { s with entries := s.entries.insert key e }.touch key

/-- Takes an entry away and leaves the key's version as it is. -/
def erase (s : State) (key : String) : State :=
  { s with entries := s.entries.erase key }

/-- Removes an entry that is there. -/
def remove (s : State) (key : String) : State := (s.erase key).touch key

/-- Removes a key whose time is over. -/
def purge (s : State) (key : String) (now : Instant) : State :=
  match s.entries[key]? with
  | some e => if e.isExpired now then s.remove key else s
  | none => s

/-- Removes all keys whose time is over. -/
def purgeAll (s : State) (now : Instant) : State :=
  s.entries.keys.foldl (fun s key => s.purge key now) s

/-- Whether there is no room for a key: it is not stored, and the store holds as many keys as it may. -/
def isFull (s : State) (key : String) (max : Nat) : Bool :=
  max ≤ s.entries.size && !s.entries.contains key

/-- The failure of adding a span to the clock that the clock cannot show. -/
def deadlineOverflow : Error := .crash "overflow when adding duration to instant"

/-- The deadline at the end of a span, if there is one. -/
def deadline (ttl : Option Duration) (now : Instant) : Except Error (Option Instant) :=
  match ttl with
  | none => .ok none
  | some d =>
    match Instant.after? now d with
    | some t => .ok (some t)
    | none => .error deadlineOverflow

/-! ## Operations -/

/-- The bytes under a key. -/
def get (key : String) (now : Instant) (s : State) : Except Error (Option Bytes) × State :=
  let s := s.purge key now
  match s.entries[key]? with
  | some ⟨.bytes b, _⟩ => (.ok (some b), s)
  | some ⟨.members _, _⟩ => (.error .wrongType, s)
  | none => (.ok none, s)

/-- The bytes under a key, for a reader that changes the contents only if the key's time is over. -/
def read (key : String) (now : Instant) (s : State) : Except Error (Option Bytes) × State :=
  match s.entries[key]? with
  | none => (.ok none, s)
  | some e =>
    if e.isExpired now then s.get key now
    else
      match e.value with
      | .bytes b => (.ok (some b), s)
      | .members _ => (.error .wrongType, s)

/-- Stores bytes. Whatever the key held before is gone, its deadline included. -/
def set (key : String) (value : Bytes) (ttl : Option Duration) (max : Nat) (now : Instant)
    (s : State) : Except Error Unit × State :=
  let s := s.purge key now
  if s.isFull key max then (.error .capacityExceeded, s)
  else
    match deadline ttl now with
    | .ok until_ => (.ok (), s.put key ⟨.bytes value, until_⟩)
    | .error e => (.error e, s)

/-- Stores bytes for good and answers the bytes before. -/
def getSet (key : String) (value : Bytes) (max : Nat) (now : Instant) (s : State) :
    Except Error (Option Bytes) × State :=
  match s.get key now with
  | (.error e, s) => (.error e, s)
  | (.ok previous, s) =>
    match s.set key value none max now with
    | (.ok (), s) => (.ok previous, s)
    | (.error e, s) => (.error e, s)

/-- Stores a sum under a key and answers it. -/
def store (key : String) (sum? : Option Int64) (until_ : Option Instant) (s : State) :
    Except Error Int64 × State :=
  match sum? with
  | some sum => (.ok sum, s.put key ⟨.bytes (Counter.encode sum), until_⟩)
  | none => (.error .overflow, s)

/-- Adds to the integer under a key and keeps its deadline; an absent key counts as zero. -/
def increment (key : String) (amount : Int64) (max : Nat) (now : Instant) (s : State) :
    Except Error Int64 × State :=
  let s := s.purge key now
  match s.entries[key]? with
  | some ⟨.bytes b, until_⟩ =>
    match Counter.decode key b with
    | .ok current => s.store key (Numeral.sum? current amount) until_
    | .error _ => (.error .notAnInteger, s)
  | some ⟨.members _, _⟩ => (.error .wrongType, s)
  | none =>
    if s.isFull key max then (.error .capacityExceeded, s)
    else s.store key (Numeral.sum? 0 amount) none

/-- Replaces a key's deadline: whether the key is there. -/
def expire (key : String) (ttl : Duration) (now : Instant) (s : State) :
    Except Error Bool × State :=
  let s := s.purge key now
  match s.entries[key]? with
  | some e =>
    match deadline (some ttl) now with
    | .ok until_ => (.ok true, s.put key { e with deadline := until_ })
    | .error e => (.error e, s)
  | none => (.ok false, s)

/-- Whether a key is there. -/
def contains (key : String) (now : Instant) (s : State) : Except Error Bool × State :=
  let s := s.purge key now
  (.ok (s.entries.contains key), s)

/-- Removes a key: whether it was there. -/
def delete (key : String) (now : Instant) (s : State) : Except Error Bool × State :=
  let s := s.purge key now
  if s.entries.contains key then (.ok true, s.remove key) else (.ok false, s)

/-- Adds a member to the set under a key: whether it is new. The set is made if the key is absent, and
keeps its deadline. -/
def setAdd (key : String) (member : Bytes) (max : Nat) (now : Instant) (s : State) :
    Except Error Bool × State :=
  let s := s.purge key now
  match s.entries[key]? with
  | some ⟨.members set, until_⟩ =>
    if set.contains member then (.ok false, s)
    else (.ok true, s.put key ⟨.members (set.insert member), until_⟩)
  | some ⟨.bytes _, _⟩ => (.error .wrongType, s)
  | none =>
    if s.isFull key max then (.error .capacityExceeded, s)
    else (.ok true, s.put key ⟨.members ((∅ : Std.ExtTreeSet Bytes).insert member), none⟩)

/-- Removes a member from the set under a key: whether it was in it. A set in which no member is left goes
with its key, and the key is touched if the member was in the set. -/
def setRemove (key : String) (member : Bytes) (now : Instant) (s : State) :
    Except Error Bool × State :=
  let s := s.purge key now
  match s.entries[key]? with
  | some ⟨.members set, until_⟩ =>
    let removed := set.contains member
    let left := set.erase member
    let s :=
      if left.isEmpty then s.erase key
      else { s with entries := s.entries.insert key ⟨.members left, until_⟩ }
    (.ok removed, if removed then s.touch key else s)
  | some ⟨.bytes _, _⟩ => (.error .wrongType, s)
  | none => (.ok false, s)

/-- The members of the set under a key, in the order of their bytes. -/
def setMembers (key : String) (now : Instant) (s : State) : Except Error (List Bytes) × State :=
  let s := s.purge key now
  match s.entries[key]? with
  | some ⟨.members set, _⟩ => (.ok set.toList, s)
  | some ⟨.bytes _, _⟩ => (.error .wrongType, s)
  | none => (.ok [], s)

/-! ## Batches -/

/-- The reply that tells the result of a command. -/
def reply (toReply : α → Reply) : Except Error α × State → Except Error Reply × State
  | (.ok a, s) => (.ok (toReply a), s)
  | (.error e, s) => (.error e, s)

/-- Bytes as a reply. -/
def dataReply : Option Bytes → Reply
  | some b => .data b
  | none => .nil

/-- Runs one queued command. -/
def apply (c : Command) (max : Nat) (now : Instant) (s : State) : Except Error Reply × State :=
  match c with
  | .get key => reply dataReply (s.get key now)
  | .set key value ttl => reply (fun _ => .status "OK") (s.set key value ttl max now)
  | .increment key amount => reply .integer (s.increment key amount max now)
  | .expire key ttl => reply .ofBool (s.expire key ttl now)
  | .delete key => reply .ofBool (s.delete key now)
  | .setAdd key member => reply .ofBool (s.setAdd key member max now)
  | .setRemove key member => reply .ofBool (s.setRemove key member now)

/-- Runs queued commands one after the other. A command that fails leaves its error in its place; only a
crash ends the batch. -/
def applyAll : List Command → Nat → Instant → State → Except Error (List Reply) × State
  | [], _, _, s => (.ok [], s)
  | c :: rest, max, now, s =>
    let (result, s) := s.apply c max now
    match result with
    | .error (.crash reason) => (.error (.crash reason), s)
    | .error e => cons (.ofError e) (applyAll rest max now s)
    | .ok r => cons r (applyAll rest max now s)
where
  /-- Puts a reply before those of the commands behind it. -/
  cons (r : Reply) : Except Error (List Reply) × State → Except Error (List Reply) × State
    | (.ok replies, s) => (.ok (r :: replies), s)
    | (.error e, s) => (.error e, s)

/-! ## Transactions -/

/-- Purges keys and reads their versions. -/
def watch : List String → Instant → State → List (String × Nat) × State
  | [], _, s => ([], s)
  | key :: rest, now, s =>
    let s := s.purge key now
    let (watched, s') := watch rest now s
    ((key, s.version key) :: watched, s')

/-- Purges watched keys up to the first one whose version has changed: whether there is none. -/
def unchanged : List (String × Nat) → Instant → State → Bool × State
  | [], _, s => (true, s)
  | (key, version) :: rest, now, s =>
    let s := s.purge key now
    if s.version key = version then unchanged rest now s else (false, s)

/-- Runs queued commands if no watched key has changed. -/
def exec (watched : List (String × Nat)) (commands : List Command) (max : Nat) (now : Instant)
    (s : State) : Except Error (Option (List Reply)) × State :=
  match s.unchanged watched now with
  | (false, s) => (.ok none, s)
  | (true, s) =>
    match s.applyAll commands max now with
    | (.ok replies, s) => (.ok (some replies), s)
    | (.error e, s) => (.error e, s)

end State

end WatchedStore.Memory
