import WatchedStore.Error
import WatchedStore.Settings.Basic
import WatchedStore.Text.Utf8

/-!
# Settings from the environment

The values of environment variables are bytes; one that is not UTF-8 counts as absent.
-/

namespace WatchedStore

/-- The environment of a process: variables and their values. -/
abbrev Environment := List (String × Bytes)

/-- The text of a variable. -/
def Environment.text? (env : Environment) (name : String) : Option String :=
  (env.lookup name).bind Utf8.decode?

/-- Settings of a remote store: its address and timeout come from variables, if they are there. -/
def RemoteSettings.ofEnvironment (env : Environment) : Except Error RemoteSettings := do
  let settings : RemoteSettings :=
    match env.text? "REDIS_URL" with
    | some url => { url }
    | none => {}
  match env.text? "REDIS_CONNECTION_TIMEOUT_MS" with
  | none => return settings
  | some text =>
    match Numeral.readUnsigned (Bytes.ofText text) with
    | .ok millis => return { settings with connectionTimeout := .ofMillis millis }
    | .error refusal =>
      .error (.configuration
        ("REDIS_CONNECTION_TIMEOUT_MS must be a number of milliseconds: " ++ refusal.message))

end WatchedStore
