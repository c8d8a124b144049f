import WatchedStore.CommandLine.Grammar
import WatchedStore.LogFilter
import WatchedStore.Memory.Host
import WatchedStore.Remote.Client
import WatchedStore.Settings.Environment

/-!
# Tools

A tool reads its arguments and its environment, opens a store in memory or connects to a remote one, runs
programs on it, and ends with an exit code, an output and perhaps a complaint. All of that is a function
of its surroundings, so a tool can be run against any script of a server.
-/

namespace WatchedStore.Tool

/-- The version of all tools. -/
def version : String := "0.1.0"

/-- The kinds of stores. -/
inductive StoreKind where
  | memory
  | remote
  deriving DecidableEq

/-- The word for a kind of store. -/
def StoreKind.name : StoreKind → String
  | .memory => "memory"
  | .remote => "redis"

/-- The choice between words. -/
def chosen (name : String) (choices : List (String × α)) (word : String) :
    Except CommandLine.Mistake α :=
  match choices.lookup word with
  | some a => .ok a
  | none =>
    .error (.badValue name word
      ("expected " ++ String.intercalate " or " (choices.map fun (word, _) => word)))

/-- The kind of store that an option names. -/
def StoreKind.ofWord (word : String) : Except CommandLine.Mistake StoreKind :=
  chosen "storage" [("memory", .memory), ("redis", .remote)] word

/-- A signed number on a command line. -/
def signed (name text : String) : Except CommandLine.Mistake Int64 :=
  (Numeral.readSigned (Bytes.ofText text)).mapError fun r => .badValue name text r.message

/-- A natural number on a command line. -/
def unsigned (name text : String) : Except CommandLine.Mistake UInt64 :=
  (Numeral.readUnsigned (Bytes.ofText text)).mapError fun r => .badValue name text r.message

/-- What a tool finds when it starts. -/
structure Surroundings where
  environment : Environment
  /-- The server within reach. -/
  server : Option Remote.Server := none
  /-- A text that no other run has. -/
  runId : String := ""
  /-- The random share that shortens the delay after so many attempts. -/
  draw : Nat → Float := fun _ => 0.5

/-- An open store. -/
inductive Opened where
  | memory (h : Memory.Host)
  | remote (c : Remote.Client)

namespace Opened

/-- Runs an action on an open store. -/
def run (a : {τ : Type} → Action τ α) : Opened → Except Error α × Opened
  | .memory h =>
    let (result, h) := Action.run Memory.Host.backend a h
    (result, .memory h)
  | .remote c =>
    let (result, c) := Action.run Remote.Client.backend a c
    (result, .remote c)

/-- The events of an open store and of the programs that ran on it. -/
def events : Opened → List Event
  | .memory h => h.events.toList
  | .remote c => c.events.toList

/-- After how many rounds an unending loop has met an error on an open store that nobody else uses: at
once in memory, and on a server when its script is used up. -/
def rounds : Opened → Nat
  | .memory _ => 1
  | .remote c => c.script.turns.length + 1

end Opened

/-- What a tool prints. -/
inductive Output where
  | lines (texts : List String)
  | usage (text : String)
  | table (rows : List (List String))

/-- How a tool ended. -/
structure Ended where
  exit : Nat := 0
  /-- What was wrong with the arguments. -/
  mistake : Option CommandLine.Mistake := none
  /-- What went wrong at work. -/
  complaint : Option String := none
  output : Output
  /-- The events that the tool lets through to its log. -/
  events : List Event := []
  /-- What the server received, and what is left of its script. -/
  script : Remote.Script := {}

/-- The exit code after a failure. -/
def failed : Nat := 1

/-- The exit code after a crash. -/
def crashed : Nat := 101

namespace Surroundings

/-- The script of a server that nobody has talked to. -/
def untouched (s : Surroundings) : Remote.Script :=
  { turns := s.server.elim [] Remote.Server.turns }

/-- The server's script after a store was used. -/
def after (s : Surroundings) : Opened → Remote.Script
  | .memory _ => s.untouched
  | .remote c => c.script

/-- The settings of a remote store, whose address can be given apart. -/
def remoteSettings (s : Surroundings) (url : Option String) : Except Error RemoteSettings := do
  let settings ← RemoteSettings.ofEnvironment s.environment
  return { settings with url := url.getD settings.url }

/-- Connects to a remote store. -/
def connect (s : Surroundings) (settings : RemoteSettings) : Except Error Opened :=
  .remote <$> Remote.Client.connect settings s.server

/-- How a tool ends that does not get to its work, if it would have printed `output` without any. -/
def refuse (s : Surroundings) (output : Output) : CommandLine.Refusal → Ended
  | .help usage => { output := .usage usage, script := s.untouched }
  | .version line => { output := .lines [line], script := s.untouched }
  | .mistaken m => { exit := failed, mistake := some m, output, script := s.untouched }

end Surroundings

/-- The line on which a tool complains. -/
def complain (e : Error) : Option String := some ("Error: " ++ e.debugText)

end WatchedStore.Tool
