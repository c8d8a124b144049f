import WatchedStore.Call

/-!
# Commands on the wire

A command on the wire is its name and its arguments, all of them bytes. Direct requests and queued
commands are written by separate functions: a queued command is spelled out, a direct request is mostly
written by the driver that the client stands on.
-/

namespace WatchedStore.Remote

/-- A command's name and arguments. -/
abbrev WireCommand := List Bytes

/-- The milliseconds that are sent for a span: whole ones, of 64 bits, and at least one. -/
def ttlMillis (ttl : Duration) : UInt64 := max ttl.millis64 1

/-- A text as an argument. -/
def textArgument (s : String) : Bytes := Bytes.ofText s

/-- An integer as an argument. -/
def integerArgument (n : Int) : Bytes := Numeral.encode n

/-- A span as an argument. -/
def ttlArgument (ttl : Duration) : Bytes := integerArgument (ttlMillis ttl).toNat

/-- A queued command. -/
def Command.wire : Command → WireCommand
  | .get key => [textArgument "GET", textArgument key]
  | .set key value none => [textArgument "SET", textArgument key, value]
  | .set key value (some ttl) =>
    [textArgument "SET", textArgument key, value, textArgument "PX", ttlArgument ttl]
  | .increment key amount =>
    [textArgument "INCRBY", textArgument key, integerArgument amount.toInt]
  | .expire key ttl => [textArgument "PEXPIRE", textArgument key, ttlArgument ttl]
  | .delete key => [textArgument "DEL", textArgument key]
  | .setAdd key member => [textArgument "SADD", textArgument key, member]
  | .setRemove key member => [textArgument "SREM", textArgument key, member]

/-- A direct write, which is spelled out. -/
def setWire (key : String) (value : Bytes) (ttl : Option Duration) : WireCommand :=
  [textArgument "SET", textArgument key, value]
    ++ ttl.elim [] fun ttl => [textArgument "PX", ttlArgument ttl]

/-- A direct change of a deadline, which is spelled out. -/
def expireWire (key : String) (ttl : Duration) : WireCommand :=
  [textArgument "PEXPIRE", textArgument key, ttlArgument ttl]

/-- What a driver writes for the other direct requests: it has a helper for each kind of them. -/
structure Helpers where
  get : String → WireCommand
  getSet : String → Bytes → WireCommand
  increment : String → Int64 → WireCommand
  decrement : String → Int64 → WireCommand
  contains : String → WireCommand
  delete : String → WireCommand
  setAdd : String → Bytes → WireCommand
  setRemove : String → Bytes → WireCommand
  setMembers : String → WireCommand

namespace Helpers

/-- A helper writes its command's name and then its own arguments, in their order. -/
def standard : Helpers where
  get key := [textArgument "GET", textArgument key]
  getSet key value := [textArgument "GETSET", textArgument key, value]
  increment key amount := [textArgument "INCRBY", textArgument key, integerArgument amount.toInt]
  decrement key amount := [textArgument "DECRBY", textArgument key, integerArgument amount.toInt]
  contains key := [textArgument "EXISTS", textArgument key]
  delete key := [textArgument "DEL", textArgument key]
  setAdd key member := [textArgument "SADD", textArgument key, member]
  setRemove key member := [textArgument "SREM", textArgument key, member]
  setMembers key := [textArgument "SMEMBERS", textArgument key]

/-- The commands that a request sends: one, or those of its batch. -/
def wire (h : Helpers) : Request → List WireCommand
  | .get key => [h.get key]
  | .set key value ttl => [setWire key value ttl]
  | .getSet key value => [h.getSet key value]
  | .increment key amount => [h.increment key amount]
  | .decrement key amount => [h.decrement key amount]
  | .expire key ttl => [expireWire key ttl]
  | .contains key => [h.contains key]
  | .delete key => [h.delete key]
  | .setAdd key member => [h.setAdd key member]
  | .setRemove key member => [h.setRemove key member]
  | .setMembers key => [h.setMembers key]
  | .batch commands => commands.map Command.wire

end Helpers

/-- The commands that a request sends with the usual helpers. -/
def wire : Request → List WireCommand := Helpers.standard.wire

/-- The command that watches keys. -/
def watchWire (keys : List String) : WireCommand := textArgument "WATCH" :: keys.map textArgument

/-- Commands between those that open and close a commit. -/
def committed (ws : List WireCommand) : List WireCommand :=
  [textArgument "MULTI"] :: ws ++ [[textArgument "EXEC"]]

/-- The commands of a commit; a commit of nothing sends nothing. -/
def execWire (commands : List Command) : List WireCommand :=
  if commands.isEmpty then [] else committed (commands.map Command.wire)

end WatchedStore.Remote
