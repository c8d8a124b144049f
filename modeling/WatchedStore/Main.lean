import WatchedStore.Tool.Measure
import WatchedStore.Tool.Operate
import WatchedStore.Tool.Table
import WatchedStore.Tool.Tour

/-!
# The tools as a program

The first argument names a tool, the others are the tool's own. No server is within reach of this
program, so a remote store is given up when the time to connect is over.
-/

namespace WatchedStore

/-- The variables that tools look at. -/
def environmentNames : List String := ["REDIS_URL", "REDIS_CONNECTION_TIMEOUT_MS", "RUST_LOG"]

/-- The tools by their names. -/
def tools : List (String × (Tool.Surroundings → List String → Tool.Ended)) := [
  (Tool.Operate.title, Tool.Operate.run),
  (Benchmark.source, Tool.Measure.run),
  (Tool.Tour.source, fun s _ => Tool.Tour.run s)]

/-- What a tool finds in this process. -/
def surroundings : IO Tool.Surroundings := do
  let environment ← environmentNames.filterMapM fun name => do
    return (← IO.getEnv name).map fun value => (name, Bytes.ofText value)
  let runId ← (List.range 16).mapM fun _ => do return (← IO.rand 0 255).toUInt8
  let share := (← IO.rand 0 999999).toFloat / 1000000.0
  return { environment, runId := Bytes.toHex runId, draw := fun _ => share }

/-- Prints how a tool ended. -/
def report (e : Tool.Ended) : IO UInt32 := do
  for event in e.events do
    IO.println (event.level.name ++ " " ++ event.source ++ ": " ++ event.line)
  match e.output with
  | .lines texts => texts.forM IO.println
  | .usage text => IO.println text
  | .table rows => (Tool.Table.lines rows).forM IO.println
  if let some m := e.mistake then IO.eprintln ("error: " ++ m.message)
  if let some line := e.complaint then IO.eprintln line
  return e.exit.toUInt32

/-- Runs the tool that the first argument names. -/
def runNamed (arguments : List String) : IO UInt32 := do
  match arguments with
  | [] =>
    IO.eprintln ("error: no tool named; one of " ++ String.intercalate ", " (tools.map (·.1)))
    return 1
  | name :: words =>
    match tools.lookup name with
    | some tool => report (tool (← surroundings) words)
    | none =>
      IO.eprintln ("error: unknown tool " ++ Text.quote name)
      return 1

end WatchedStore

/-- Runs the program. -/
def main (arguments : List String) : IO UInt32 := WatchedStore.runNamed arguments
