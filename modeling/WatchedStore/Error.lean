import WatchedStore.Text.Quoted
import WatchedStore.Text.Numeral

/-!
# Errors

One type for everything that can go wrong with a store and what is built on it. An error is a cause with
its data; the sentence for a reader (`message`) and the form for a log (`debugText`) are functions of it.
-/

namespace WatchedStore

/-- What went wrong. -/
inductive Error where
  /-- The store cannot be reached, or the connection to it was lost. -/
  | connection (reason : String)
  /-- The store does not accept the client's credentials. -/
  | authentication (reason : String)
  /-- The store rejected a command. -/
  | command (reason : String)
  /-- A value could not be written as JSON, or read from it. -/
  | serialization (reason : String)
  /-- The key holds nothing. -/
  | keyNotFound (key : String)
  /-- A watched key changed during every attempt. -/
  | transactionAborted (key : String) (attempts : Nat)
  /-- The bytes under a key are not a decimal integer of 64 bits. -/
  | malformedInteger (key value : String)
  /-- The configuration is not usable. -/
  | configuration (reason : String)
  /-- A failure inside the store itself. -/
  | internal (reason : String)
  /-- The operation broke off half-way. -/
  | crash (reason : String)
  deriving DecidableEq, Repr

namespace Error

/-- The error as a sentence. -/
def message : Error → String
  | .connection reason => "Storage error: Store connection error: " ++ reason
  | .authentication reason => "Storage error: Store authentication error: " ++ reason
  | .command reason => "Storage error: Store command error: " ++ reason
  | .serialization reason => "Storage error: Data serialization error: " ++ reason
  | .keyNotFound key => "Storage error: Key not found: " ++ key
  | .transactionAborted key attempts =>
    "Storage error: Transaction on key " ++ key ++ " aborted after " ++ Numeral.text attempts
      ++ " attempts"
  | .malformedInteger key value =>
    "Value at key " ++ key ++ " is not a valid integer: " ++ Text.quote value
  | .configuration reason => "Configuration error: " ++ reason
  | .internal reason => "Internal error: " ++ reason
  | .crash reason => reason

/-- The error as its cause and data. -/
def debugText : Error → String
  | .connection reason => stored ("Connection(" ++ Text.quote reason ++ ")")
  | .authentication reason => stored ("Auth(" ++ Text.quote reason ++ ")")
  | .command reason => stored ("Command(" ++ Text.quote reason ++ ")")
  | .serialization reason => stored ("Serialization(" ++ Text.quote reason ++ ")")
  | .keyNotFound key => stored ("KeyNotFound(" ++ Text.quote key ++ ")")
  | .transactionAborted key attempts =>
    stored ("TransactionAborted \x7b key: " ++ Text.quote key ++ ", attempts: "
      ++ Numeral.text attempts ++ " \x7d")
  | .malformedInteger key value =>
    "Parse \x7b key: " ++ Text.quote key ++ ", value: " ++ Text.quote value ++ " \x7d"
  | .configuration reason => "Config(" ++ Text.quote reason ++ ")"
  | .internal reason => "Internal(" ++ Text.quote reason ++ ")"
  | .crash reason => reason
where
  stored (cause : String) : String := "Storage(" ++ cause ++ ")"

/-- The word for the cause. -/
def kind : Error → String
  | .connection _ => "Connection"
  | .authentication _ => "Auth"
  | .command _ => "Command"
  | .serialization _ => "Serialization"
  | .keyNotFound _ => "KeyNotFound"
  | .transactionAborted .. => "TransactionAborted"
  | .malformedInteger .. => "Parse"
  | .configuration _ => "Config"
  | .internal _ => "Internal"
  | .crash _ => "Panic"

/-- Whether the store could not be reached. -/
def isConnection : Error → Bool
  | .connection _ => true
  | _ => false

/-- Whether the store rejected a command. -/
def isCommand : Error → Bool
  | .command _ => true
  | _ => false

/-- Whether a key was absent. -/
def isNotFound : Error → Bool
  | .keyNotFound _ => true
  | _ => false

/-- Whether a value was not an integer. -/
def isMalformedInteger : Error → Bool
  | .malformedInteger .. => true
  | _ => false

/-- A command on a value of the other type. -/
def wrongType : Error :=
  .command "WRONGTYPE Operation against a key holding the wrong kind of value"

/-- Arithmetic on a value that is not an integer, or with an amount that has no negative. -/
def notAnInteger : Error := .command "ERR value is not an integer or out of range"

/-- Arithmetic that leaves the range of 64-bit integers. -/
def overflow : Error := .command "ERR increment or decrement would overflow"

/-- A new key in a store that is full. -/
def capacityExceeded : Error := .command "Maximum entries limit exceeded"

end Error

end WatchedStore
