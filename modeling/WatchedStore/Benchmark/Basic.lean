import WatchedStore.Counter.Basic

/-!
# A benchmark of counters under contention

Workers share one counter, which starts at zero, and add one to it again and again. Each counts the
operations that succeeded and those that failed. Afterwards the counter has to hold just the number of
those that succeeded, and its key is removed.

Swapping goes on for as long as others interfere. A run therefore gets a number of rounds that one
operation may take, and answers nothing if that is not enough.
-/

namespace WatchedStore.Benchmark

/-- How a worker adds one. -/
inductive Mode where
  /-- By one request. -/
  | increment
  /-- By a transaction that gives up in the end. -/
  | getAndAdd
  /-- By reading and swapping until a swap succeeds. -/
  | swapLoop
  deriving DecidableEq

/-- The word for a mode. -/
def Mode.name : Mode → String
  | .increment => "incr"
  | .getAndAdd => "get-and-add"
  | .swapLoop => "cas-loop"

/-- How much is to be done, and by how many. -/
structure Settings where
  workers : Nat := 10
  /-- The operations of each worker. -/
  operations : Nat := 100
  /-- How many operations may be under way at once. -/
  concurrency : Nat := 100
  /-- After how many attempts a transaction gives up. -/
  maxAttempts : Nat := 64
  /-- Whether nothing is reported. -/
  quiet : Bool := false

/-- How many operations succeeded and failed, and how many swaps missed. -/
structure Tally where
  completed : Nat := 0
  failed : Nat := 0
  misses : Nat := 0
  deriving DecidableEq

/-- What one operation came to, and how many swaps missed. -/
structure Attempt where
  result : Except Error Unit
  misses : Nat := 0

/-- A tally with one more operation. -/
def Tally.add (t : Tally) (a : Attempt) : Tally :=
  match a.result with
  | .ok () => { t with completed := t.completed + 1, misses := t.misses + a.misses }
  | .error _ => { t with failed := t.failed + 1, misses := t.misses + a.misses }

/-- Which part reports a benchmark's events. -/
def source : String := "counter_bench"

/-- Reads the value and swaps it for the next one, until that succeeds or fails. -/
def swapUntilDone (c : Counter) : (rounds misses : Nat) → Program τ (Option Attempt)
  | 0, _ => return none
  | rounds + 1, misses => do
    match ← ExceptT.run c.get with
    | .error e => return some ⟨.error e, misses⟩
    | .ok current =>
      match ← ExceptT.run (c.compareAndSet current (current + 1)) with
      | .ok true => return some ⟨.ok (), misses⟩
      | .ok false => swapUntilDone c rounds (misses + 1)
      | .error e => return some ⟨.error e, misses⟩

/-- One operation. -/
def Mode.operation (c : Counter) (rounds : Nat) : Mode → Program τ (Option Attempt)
  | .increment => return some ⟨(← ExceptT.run c.incrementAndGet).map fun _ => (), 0⟩
  | .getAndAdd => return some ⟨(← ExceptT.run (c.getAndAdd 1)).map fun _ => (), 0⟩
  | .swapLoop => swapUntilDone c rounds 0

/-- The report of an operation that failed. -/
def failure (e : Error) : Event :=
  ⟨.warn, source, "Counter operation failed: " ++ e.message, []⟩

/-- The operations of one worker, one after the other, added to a tally. -/
def worker (s : Settings) (mode : Mode) (c : Counter) (rounds : Nat) :
    Nat → Tally → Program τ (Option Tally)
  | 0, t => return t
  | operations + 1, t => do
    match ← mode.operation c rounds with
    | none => return none
    | some a =>
      let rest := worker s mode c rounds operations (t.add a)
      match a.result with
      | .ok () => rest
      | .error e => if s.quiet then rest else .report (failure e) rest

/-- The operations of all workers, one worker after the other. -/
def allWorkers (s : Settings) (mode : Mode) (c : Counter) (rounds : Nat) :
    Nat → Tally → Program τ (Option Tally)
  | 0, t => return t
  | workers + 1, t => do
    match ← worker s mode c rounds s.operations t with
    | none => return none
    | some t => allWorkers s mode c rounds workers t

/-- What a benchmark came to. -/
structure Result where
  mode : Mode
  tally : Tally
  /-- The value of the counter in the end. -/
  actual : Int64

/-- The value that the counter should have in the end. -/
def Result.expected (r : Result) : Int64 := Int64.ofNat r.tally.completed

/-- Whether no operation was lost and none happened twice. -/
def Result.agrees (r : Result) : Bool := r.expected == r.actual

/-- The key of a benchmark; no two runs have the same `runId`. -/
def key (mode : Mode) (runId : String) : String := source ++ ":" ++ mode.name ++ ":" ++ runId

/-- The report of a benchmark that begins. -/
def starting (s : Settings) (mode : Mode) (runId : String) : Event :=
  ⟨.info, source, "Starting benchmark",
    [("mode", .quoted mode.name), ("key", .bare (key mode runId)),
      ("workers", .bare (Numeral.text s.workers)),
      ("ops_per_worker", .bare (Numeral.text s.operations))]⟩

/-- How many operations can be under way at once, whatever the settings say. -/
def maxConcurrency : Nat := 0x1FFFFFFFFFFFFFFF

/-- How many workers can be kept track of. -/
def maxWorkers : Nat := 0xFFFFFFFFFFFFFFF

/-- Makes the counter; what is out of bounds breaks off only then. -/
def prepare (s : Settings) (mode : Mode) (runId : String) (draw : Nat → Float) :
    Action τ Counter := do
  let retry := { RetryPolicy.standard with maxAttempts := s.maxAttempts }
  let c ← Counter.create (key mode runId) { retry } (.value 0) draw
  unless s.quiet do Action.report (starting s mode runId)
  if maxConcurrency < s.concurrency then throw (.crash "too many operations at once")
  if maxWorkers < s.workers then throw (.crash "too many workers")
  return c

/-- Runs one benchmark. -/
def run (s : Settings) (mode : Mode) (runId : String) (draw : Nat → Float) (rounds : Nat) :
    Action τ (Option Result) := do
  let c ← prepare s mode runId draw
  match ← ExceptT.lift (allWorkers s mode c rounds s.workers {}) with
  | none => return none
  | some tally =>
    let actual ← c.get
    discard (Action.request (.delete c.key))
    return some ⟨mode, tally, actual⟩

end WatchedStore.Benchmark
