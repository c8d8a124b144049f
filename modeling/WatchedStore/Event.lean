import WatchedStore.Text.Quoted

/-!
# Log events

Library and programs report what they do as events: a level, the part that reports, a sentence and named
values. Which events are shown, and how a line looks, is decided by whoever collects them.
-/

namespace WatchedStore

/-- How important an event is. -/
inductive Level where
  | error
  | warn
  | info
  | debug
  | trace
  deriving DecidableEq, Repr

namespace Level

/-- The word for a level. -/
def name : Level → String
  | .error => "ERROR"
  | .warn => "WARN"
  | .info => "INFO"
  | .debug => "DEBUG"
  | .trace => "TRACE"

/-- The more a level lets through, the greater its number. -/
def verbosity : Level → Nat
  | .error => 1
  | .warn => 2
  | .info => 3
  | .debug => 4
  | .trace => 5

end Level

/-- A value in an event: a text that a log line quotes, or one that it shows as it is. -/
inductive FieldValue where
  | quoted (text : String)
  | bare (text : String)
  deriving DecidableEq, Repr

/-- The value without quotes. -/
def FieldValue.plain : FieldValue → String
  | .quoted text => text
  | .bare text => text

/-- The value in a log line. -/
def FieldValue.inLine : FieldValue → String
  | .quoted text => Text.quote text
  | .bare text => text

/-- Something that was reported. -/
structure Event where
  level : Level
  /-- The path of the part that reports, its pieces separated by `::`. -/
  source : String
  message : String
  fields : List (String × FieldValue)
  deriving DecidableEq, Repr

/-- The sentence, then each value behind its name. -/
def Event.line (e : Event) : String :=
  String.intercalate " " (e.message :: e.fields.map fun (name, value) => name ++ "=" ++ value.inLine)

end WatchedStore
