import WatchedStore.Benchmark.Basic
import WatchedStore.Tool.Basic

/-!
# Benchmarks from the command line

The tool `counter_bench` runs benchmarks one after the other and prints a table with a row for each. It
complains if a counter does not end at the number of operations that succeeded.
-/

namespace WatchedStore.Tool.Measure

open CommandLine Benchmark

/-- What the tool is told. -/
structure Invocation where
  modes : List Mode
  store : StoreKind
  url : Option String
  verbosity : Nat
  settings : Benchmark.Settings

/-! ## Arguments -/

/-- What may stand on the command line. -/
def form : Form where
  title := Benchmark.source
  version := version
  options := [
    { long := "mode", short := some 'm', purpose := .value },
    { long := "storage", short := some 's', purpose := .value },
    { long := "redis-url", purpose := .value },
    { long := "workers", short := some 'w', purpose := .value },
    { long := "ops-per-worker", short := some 'n', purpose := .value },
    { long := "concurrency", short := some 'c', purpose := .value },
    { long := "max-attempts", purpose := .value },
    { long := "verbose", short := some 'v', purpose := .count },
    { long := "disable-logs", purpose := .flag }]

/-- All modes in the order in which they are run. -/
def allModes : List Mode := [.increment, .getAndAdd, .swapLoop]

/-- The modes that an option names: a single one, or all. -/
def modesOfWord (word : String) : Except Mistake (List Mode) :=
  chosen "mode" (allModes.map (fun m => (m.name, [m])) ++ [("all", allModes)]) word

/-- Reads the command line. -/
def Invocation.ofArguments (words : List String) : Except Refusal Invocation := do
  let (m, _) ← form.read words
  let number (name default : String) : Except Mistake Nat := do
    return (← unsigned name (← m.value name default)).toNat
  let settled : Except Mistake Invocation := do
    return {
      modes := ← modesOfWord (← m.value "mode" "all")
      store := ← StoreKind.ofWord (← m.value "storage" StoreKind.memory.name)
      url := ← m.value? "redis-url"
      verbosity := m.count "verbose"
      settings := {
        workers := ← number "workers" "10"
        operations := ← number "ops-per-worker" "100"
        concurrency := ← number "concurrency" "100"
        maxAttempts := ← number "max-attempts" "64"
        quiet := ← m.flag "disable-logs" } }
  settled.mapError .mistaken

/-! ## Work -/

/-- The titles of the columns. -/
def header : List String :=
  ["Mode", "Storage", "Completed", "Failed", "CAS misses", "Final value"]

/-- The row of a benchmark. -/
def row (store : StoreKind) (r : Result) : List String :=
  let verdict := if r.agrees then "ok" else "expected " ++ Numeral.text r.expected.toInt
  [r.mode.name, store.name, Numeral.text r.tally.completed, Numeral.text r.tally.failed,
    Numeral.text r.tally.misses, Numeral.text r.actual.toInt ++ " (" ++ verdict ++ ")"]

/-- Runs benchmarks until one fails. A benchmark that does not end is taken for a crash. -/
def measure (settings : Benchmark.Settings) (runId : String) (draw : Nat → Float) (rounds : Nat) :
    List Mode → Action τ (List Result)
  | [] => return []
  | mode :: rest => do
    match ← Benchmark.run settings mode runId draw rounds with
    | none => throw (.crash "endless benchmark")
    | some r => return r :: (← measure settings runId draw rounds rest)

/-- The complaint about a counter with a wrong value. -/
def disagreement : String :=
  "Error: " ++ Text.quote "final counter value does not match the committed operations"

/-- The events that are shown. -/
def filter (i : Invocation) : LogFilter :=
  .ofTargets [Benchmark.source, "kv_atomic"]
    (if i.settings.quiet then .error
    else
      match i.verbosity with
      | 0 => .info
      | 1 => .debug
      | _ => .trace)

/-- The report of a connection that failed. -/
def unconnected (e : Error) : Event :=
  ⟨.error, Benchmark.source, "Failed to connect to Redis: " ++ e.message, []⟩

/-- How a store in memory is set up. -/
def memorySettings : MemorySettings := { maxEntries := 100000 }

/-- Runs the benchmarks on an open store. -/
def measureOn (s : Surroundings) (i : Invocation) (store : Opened) : Ended :=
  let (result, store) := store.run (measure i.settings s.runId s.draw store.rounds i.modes)
  let ended : Ended :=
    { output := .table [], events := store.events, script := s.after store }
  match result with
  | .error (.crash _) => { ended with exit := crashed }
  | .error e => { ended with exit := failed, complaint := complain e }
  | .ok results =>
    let ended := { ended with output := .table (header :: results.map (row i.store)) }
    if results.all Result.agrees then ended
    else { ended with exit := failed, complaint := some disagreement }

/-- Opens the store and runs the benchmarks. -/
def carryOut (s : Surroundings) (i : Invocation) : Ended :=
  let stopped (e : Error) (events : List Event) : Ended :=
    { exit := failed, complaint := complain e, output := .table [], events, script := s.untouched }
  match i.store with
  | .memory => measureOn s i (.memory (.ofSettings memorySettings true))
  | .remote =>
    match s.remoteSettings i.url with
    | .error e => stopped e []
    | .ok settings =>
      match s.connect settings with
      | .error e => stopped e [unconnected e]
      | .ok store => measureOn s i store

/-- Runs the tool. -/
def run (s : Surroundings) (words : List String) : Ended :=
  match Invocation.ofArguments words with
  | .error r => s.refuse (.table []) r
  | .ok i =>
    let ended := carryOut s i
    { ended with events := ended.events.filter (filter i).shows }

end WatchedStore.Tool.Measure
