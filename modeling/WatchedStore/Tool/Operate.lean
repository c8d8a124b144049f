import WatchedStore.Cache.Manager
import WatchedStore.Counter.Basic
import WatchedStore.Json.Parse
import WatchedStore.Tool.Basic

/-!
# Single operations from the command line

The tool `counter_cli` carries out one operation of a counter or of a cache region and prints what it
answers. A swap that does not take place ends with exit code one, without a complaint.
-/

namespace WatchedStore.Tool.Operate

open CommandLine

/-- The name of the tool, which is also the part that reports its events. -/
def title : String := "counter_cli"

/-- A region on the command line, and whether its keys carry a prefix. -/
structure RegionName where
  name : String
  usePrefix : Bool

/-- One operation. -/
inductive Operation where
  | get (key : String)
  | set (key : String) (value : Int64)
  | getAndSet (key : String) (value : Int64)
  | increment (key : String) (delta : Int64)
  | decrement (key : String)
  | getAndAdd (key : String) (delta : Int64)
  | compareAndSet (key : String) (expect update : Int64)
  | cachePut (region : RegionName) (key text : String) (seconds : UInt64)
  | cacheGet (region : RegionName) (key : String)
  | cacheEvict (region : RegionName) (key : String)
  | cacheClear (region : RegionName)

/-- What the tool is told. -/
structure Invocation where
  store : StoreKind
  url : Option String
  verbosity : Nat
  operation : Operation

/-! ## Arguments -/

/-- The option that gives keys a prefix. -/
def prefixOption : OptionRule := { long := "prefix", purpose := .flag }

/-- The option for the span that entries live. -/
def ttlOption : OptionRule := { long := "ttl", purpose := .value }

/-- What may follow a command. -/
def commandForm (command : String) (operands : Nat) (options : List OptionRule) : String × Form :=
  (command, { title := title ++ " " ++ command, version, options, operands })

/-- The commands and what may follow each. -/
def commandForms : List (String × Form) := [
  commandForm "get" 1 [],
  commandForm "set" 2 [],
  commandForm "get-and-set" 2 [],
  commandForm "incr" 2 [],
  commandForm "decr" 1 [],
  commandForm "get-and-add" 2 [],
  commandForm "cas" 3 [],
  commandForm "cache-put" 3 [ttlOption, prefixOption],
  commandForm "cache-get" 2 [prefixOption],
  commandForm "cache-evict" 2 [prefixOption],
  commandForm "cache-clear" 1 [prefixOption]]

/-- The command that asks for help. -/
def helpCommand : String := "help"

/-- What may stand before the command. -/
def form : Form where
  title := title
  version := version
  options := [
    { long := "storage", short := some 's', purpose := .value },
    { long := "redis-url", purpose := .value },
    { long := "verbose", short := some 'v', purpose := .count }]
  commands := commandForms.map (·.1) ++ [helpCommand]

/-- An operand that has to be there. -/
def operand (m : Matches) (i : Nat) (name : String) : Except Mistake String :=
  match m.operands[i]? with
  | some word => .ok word
  | none => .error (.missingOperand name)

/-- The operation of a command. -/
def readOperation (m : Matches) (command : String) : Except Mistake Operation := do
  let number (i : Nat) (name : String) : Except Mistake Int64 := do signed name (← operand m i name)
  let region : Except Mistake RegionName := do
    return { name := ← operand m 0 "cache", usePrefix := ← m.flag prefixOption.long }
  match command with
  | "get" => return .get (← operand m 0 "key")
  | "set" => return .set (← operand m 0 "key") (← number 1 "value")
  | "get-and-set" => return .getAndSet (← operand m 0 "key") (← number 1 "value")
  | "incr" => return .increment (← operand m 0 "key") (← signed "delta" ((m.operands[1]?).getD "1"))
  | "decr" => return .decrement (← operand m 0 "key")
  | "get-and-add" => return .getAndAdd (← operand m 0 "key") (← number 1 "delta")
  | "cas" =>
    return .compareAndSet (← operand m 0 "key") (← number 1 "expect") (← number 2 "update")
  | "cache-put" =>
    let seconds ← unsigned ttlOption.long (← m.value ttlOption.long "0")
    return .cachePut (← region) (← operand m 1 "key") (← operand m 2 "value") seconds
  | "cache-get" => return .cacheGet (← region) (← operand m 1 "key")
  | "cache-evict" => return .cacheEvict (← region) (← operand m 1 "key")
  | "cache-clear" => return .cacheClear (← region)
  | _ => .error (.unknownCommand command)

/-- The answer to a request for help about the words behind it, which may name one command. -/
def help : List String → Refusal
  | [] => .help form.usage
  | [word] =>
    if form.commands.contains word then .help ((commandForms.lookup word).getD form).usage
    else .mistaken (.unknownCommand word)
  | _ :: word :: _ => .mistaken (.unknownCommand word)

/-- Reads the command line. The command's own words are looked at before the options in front of it. -/
def Invocation.ofArguments (words : List String) : Except Refusal Invocation := do
  let (front, rest) ← form.read words
  match rest with
  | [] => throw (.mistaken .missingCommand)
  | command :: words =>
    if command = helpCommand then throw (help words)
    match commandForms.lookup command with
    | none => throw (.mistaken (.unknownCommand command))
    | some own =>
      let (m, _) ← own.read words
      let settled : Except Mistake Invocation := do
        return {
          operation := ← readOperation m command
          store := ← StoreKind.ofWord (← front.value "storage" StoreKind.remote.name)
          url := ← front.value? "redis-url"
          verbosity := front.count "verbose" }
      settled.mapError .mistaken

/-! ## Work -/

/-- What an operation prints, and how the tool ends with it. -/
structure Printed where
  line : String
  exit : Nat := 0

/-- An integer as it is printed. -/
def printed (n : Int64) : Printed := { line := Numeral.text n.toInt }

/-- The answer of an operation that has none. -/
def done : Printed := { line := "OK" }

/-- The region on the command line, with a span for its entries; no time at all means for good. -/
def openRegion (r : RegionName) (seconds : UInt64) : Action τ Cache.Region := do
  let settings : CacheSettings := {
    usePrefix := r.usePrefix
    expirations := (∅ : Std.ExtTreeMap String Duration).insert r.name (.ofSeconds seconds) }
  let (region, _) ← ExceptT.lift ((Cache.Manager.ofSettings settings).region r.name)
  Action.ofExcept region

/-- Carries out an operation; a text that is to be cached has been read before. -/
def Operation.action (draw : Nat → Float) (document : Json.Document) :
    Operation → Action τ Printed
  | .get key => do return printed (← (← bound key).get)
  | .set key value => do
    let _ ← Counter.create key {} (.value value) draw
    return done
  | .getAndSet key value => do return printed (← (← bound key).getAndSet value)
  | .increment key delta => do return printed (← (← bound key).addAndGet delta)
  | .decrement key => do return printed (← (← bound key).decrementAndGet)
  | .getAndAdd key delta => do return printed (← (← bound key).getAndAdd delta)
  | .compareAndSet key expect update => do
    if ← (← bound key).compareAndSet expect update then return { line := "true" }
    else return { line := "false", exit := failed }
  | .cachePut r key _ seconds => do
    (← openRegion r seconds).put key document.encode
    return done
  | .cacheGet r key => do
    match ← (← openRegion r 0).get Json.Reader.document key with
    | some d => return { line := d.text }
    | none => return { line := "(nil)" }
  | .cacheEvict r key => do
    (← openRegion r 0).evict key
    return done
  | .cacheClear r => do
    (← openRegion r 0).clear
    return done
where
  /-- The counter on a key, which starts at zero. -/
  bound (key : String) : Action τ Counter := Counter.create key {} .existingOrZero draw

/-- The text that an operation is to cache, read as JSON. -/
def Operation.document : Operation → Except Json.Problem Json.Document
  | .cachePut _ _ text _ => Json.Document.parse (Bytes.ofText text)
  | _ => .ok .null

/-- The events that are shown. -/
def filter (verbosity : Nat) : LogFilter :=
  .ofTargets [title, "kv_atomic"]
    (match verbosity with
    | 0 => .warn
    | 1 => .info
    | 2 => .debug
    | _ => .trace)

/-- The report of an operation that failed. -/
def failure (message : String) : Event := ⟨.error, title, "Command failed: " ++ message, []⟩

/-- The report of a connection. -/
def connected (settings : RemoteSettings) : Event :=
  ⟨.info, title, "Connected to Redis", [("url", .bare settings.url)]⟩

/-- How a store in memory is set up. -/
def memorySettings : MemorySettings := { cleanup := false }

/-- Opens the store, and reports a connection. -/
def openStore (s : Surroundings) (i : Invocation) : Except Error (Opened × List Event) :=
  match i.store with
  | .memory => return (.memory (.ofSettings memorySettings true), [])
  | .remote => do
    let settings ← s.remoteSettings i.url
    return (← s.connect settings, [connected settings])

/-- Carries out what the tool is told. -/
def carryOut (s : Surroundings) (i : Invocation) : Ended :=
  match openStore s i with
  | .error e =>
    { exit := failed, complaint := complain e, output := .lines [], script := s.untouched }
  | .ok (store, opening) =>
    match i.operation.document with
    | .error p =>
      { exit := failed
        complaint := some ("Error: " ++ p.debugText)
        output := .lines []
        events := opening ++ store.events ++ [failure p.message]
        script := s.after store }
    | .ok document =>
      let (result, store) := store.run (i.operation.action s.draw document)
      let ended : Ended :=
        { output := .lines [], events := opening ++ store.events, script := s.after store }
      match result with
      | .ok p => { ended with exit := p.exit, output := .lines [p.line] }
      | .error (.crash _) => { ended with exit := crashed }
      | .error e =>
        { ended with
          exit := failed
          complaint := complain e
          events := ended.events ++ [failure e.message] }

/-- Runs the tool. -/
def run (s : Surroundings) (words : List String) : Ended :=
  match Invocation.ofArguments words with
  | .error r => s.refuse (.lines []) r
  | .ok i =>
    let ended := carryOut s i
    { ended with events := ended.events.filter (filter i.verbosity).shows }

end WatchedStore.Tool.Operate
