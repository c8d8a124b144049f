import WatchedStore.Error
import WatchedStore.Json.Parse
import WatchedStore.Settings.Basic

/-!
# Settings as JSON

Each kind of settings is a record: a field that the text leaves out takes the default that stands beside
it here, and unknown fields are passed over. Reading starts from a blank record, every part of which is
overwritten. Durations are whole milliseconds of 64 bits. `document` writes every field.
-/

namespace WatchedStore

open Json

namespace Settings

/-- A duration in milliseconds. -/
def readDuration : Reader Duration := Duration.ofMillis <$> Reader.unsigned

/-- The milliseconds of a duration. -/
def durationDocument (d : Duration) : Document := .number (.natural d.millis64)

/-- A size. -/
def sizeDocument (n : Nat) : Document := .number (.natural n.toUInt64)

end Settings

open Settings

namespace RemoteSettings

/-- The form of the settings. -/
def record : Record RemoteSettings where
  expected := "struct RedisConfig"
  blank := ⟨"", .zero⟩
  fields := [
    .of "url" Reader.string (fun v s => { s with url := v }) defaultUrl,
    .of "connection_timeout" readDuration (fun v s => { s with connectionTimeout := v })
      defaultTimeout]

/-- The settings as a document. -/
def document (s : RemoteSettings) : Document :=
  .object [("connection_timeout", durationDocument s.connectionTimeout), ("url", .string s.url)]

end RemoteSettings

namespace MemorySettings

/-- The form of the settings. -/
def record : Record MemorySettings where
  expected := "struct InMemoryConfig"
  blank := ⟨0, false, .zero⟩
  fields := [
    .of "max_entries" Reader.size (fun v s => { s with maxEntries := v }) defaultEntries,
    .of "use_background_task" Reader.boolean (fun v s => { s with cleanup := v }) defaultCleanup,
    .of "cleanup_interval" readDuration (fun v s => { s with cleanupInterval := v })
      defaultInterval]

/-- The settings as a document. -/
def document (s : MemorySettings) : Document :=
  .object [
    ("cleanup_interval", durationDocument s.cleanupInterval),
    ("max_entries", sizeDocument s.maxEntries),
    ("use_background_task", .bool s.cleanup)]

end MemorySettings

namespace RetryPolicy

/-- The form of the policy. -/
def record : Record RetryPolicy where
  expected := "struct RetryConfig"
  blank := ⟨0, .zero, .zero, 0.0, false⟩
  fields := [
    .of "max_attempts" Reader.size (fun v p => { p with maxAttempts := v }) defaultAttempts,
    .of "initial_backoff" readDuration (fun v p => { p with initialDelay := v })
      defaultInitialDelay,
    .of "max_backoff" readDuration (fun v p => { p with maxDelay := v }) defaultMaxDelay,
    .of "backoff_multiplier" Reader.double (fun v p => { p with multiplier := v })
      defaultMultiplier,
    .of "use_jitter" Reader.boolean (fun v p => { p with jitter := v }) defaultJitter]

/-- The policy as a document. -/
def document (p : RetryPolicy) : Document :=
  .object [
    ("backoff_multiplier", .ofDouble p.multiplier),
    ("initial_backoff", durationDocument p.initialDelay),
    ("max_attempts", sizeDocument p.maxAttempts),
    ("max_backoff", durationDocument p.maxDelay),
    ("use_jitter", .bool p.jitter)]

end RetryPolicy

namespace CounterSettings

/-- The form of the settings. -/
def record : Record CounterSettings where
  expected := "struct CounterConfig"
  blank := ⟨RetryPolicy.record.blank⟩
  fields := [.of "retry" RetryPolicy.record.read (fun v s => { s with retry := v }) RetryPolicy.standard]

/-- The settings as a document. -/
def document (s : CounterSettings) : Document := .object [("retry", s.retry.document)]

end CounterSettings

namespace CacheSettings

/-- Spans by name, the last of those with the same name. -/
def readExpirations : Reader (Std.ExtTreeMap String Duration) := do
  return Std.ExtTreeMap.ofList (← Reader.map readDuration)

/-- The form of the settings. -/
def record : Record CacheSettings where
  expected := "struct CacheManagerConfig"
  blank := ⟨false, "", .zero, ∅⟩
  fields := [
    .of "use_prefix" Reader.boolean (fun v s => { s with usePrefix := v }) (default : Bool),
    .of "prefix_delimiter" Reader.string (fun v s => { s with delimiter := v }) defaultDelimiter,
    .of "default_expiration" readDuration (fun v s => { s with defaultExpiration := v })
      (default : Duration),
    .of "expires" readExpirations (fun v s => { s with expirations := v })
      (∅ : Std.ExtTreeMap String Duration)]

/-- The settings as a document. -/
def document (s : CacheSettings) : Document :=
  .object [
    ("default_expiration", durationDocument s.defaultExpiration),
    ("expires", .object (s.expirations.toList.map fun (name, d) => (name, durationDocument d))),
    ("prefix_delimiter", .string s.delimiter),
    ("use_prefix", .bool s.usePrefix)]

end CacheSettings

/-! ## The five kinds -/

/-- Settings of one of the five kinds. -/
inductive AnySettings where
  | remote (s : RemoteSettings)
  | memory (s : MemorySettings)
  | retry (p : RetryPolicy)
  | counter (s : CounterSettings)
  | cache (s : CacheSettings)

namespace AnySettings

/-- Reads settings of the same kind as `like` from a text. -/
def parse (like : AnySettings) (text : Bytes) : Except Error AnySettings :=
  let parsed : Except Problem AnySettings :=
    match like with
    | .remote _ => .remote <$> RemoteSettings.record.read.run text
    | .memory _ => .memory <$> MemorySettings.record.read.run text
    | .retry _ => .retry <$> RetryPolicy.record.read.run text
    | .counter _ => .counter <$> CounterSettings.record.read.run text
    | .cache _ => .cache <$> CacheSettings.record.read.run text
  parsed.mapError fun p => Error.serialization p.message

/-- Settings as a document. -/
def document : AnySettings → Document
  | .remote s => s.document
  | .memory s => s.document
  | .retry p => p.document
  | .counter s => s.document
  | .cache s => s.document

end AnySettings

end WatchedStore
