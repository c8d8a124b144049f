import WatchedStore.Proofs.Remote.Delivery
import WatchedStore.Proofs.Text.Decimal

/-!
# Spans of time on the wire

A span goes to the server as a number of milliseconds at the end of a command. Two direct requests and two
queued commands carry one (`spanCommands`), and a server reads the number from the command's last argument
(`lastNumber?`). What a server receives during a call are the commands that the call writes, in their
order, as far as the connection lasts (`call_received`).

**The law** (`span_sent_exactly_if_fits`): the number is at least one, and it is within a millisecond of the
span exactly if the span's whole milliseconds have 64 bits. Among such spans a longer one is never sent as a
smaller number. Of any other span only the lowest 64 bits are sent, so that it may end almost at once
(`long_span_cut`).
-/

namespace WatchedStore.Remote

/-! ## What is sent -/

/-- The commands that a call writes. -/
def callWires : Call Transaction → List WireCommand
  | .request r => wire r
  | .watch keys => [watchWire keys]
  | .txGet _ key => [[textArgument "GET", textArgument key]]
  | .exec _ commands => execWire commands
  | .discard _ => [[textArgument "UNWATCH"]]

/-- The connection that a call goes over. -/
def callConnection (c : Client) : Call Transaction → Nat
  | .request _ => c.shared
  | .watch _ => c.next
  | .txGet tx _ | .exec tx _ | .discard tx => tx.connection

namespace Client

theorem command_received (connection : Nat) (w : WireCommand) (read : Datum → Except Failure α)
    (c : Client) : view.Receives connection c (driver.command connection w read c).2 [w] :=
  (delivers.send connection w c).first

theorem exec_received (tx : Transaction) (commands : List Command) (c : Client) :
    view.Receives tx.connection c (driver.exec tx commands c).2 (execWire commands) := by
  unfold execWire
  split
  · rename_i hempty
    obtain rfl : commands = [] := by simpa using hempty
    exact ⟨0, (List.append_nil _).symm, fun _ h => absurd rfl h⟩
  · rename_i hsome
    exact (Driver.exec_delivered delivers tx (by simpa using hsome) c).first

/-- **A server receives what a call writes**, as far as the connection lasts. -/
theorem call_received (call : Call Transaction) (c : Client) :
    view.Receives (callConnection c call) c (c.call call).2 (callWires call) := by
  cases call with
  | request r => exact (Driver.request_delivered delivers r c).first
  | watch keys =>
    exact command_received c.next (watchWire keys) (fun _ => .ok ()) { c with next := c.next + 1 }
  | txGet tx key => exact command_received tx.connection _ _ c
  | exec tx commands => exact exec_received tx commands c
  | discard tx => exact command_received tx.connection _ _ c

end Client

/-! ## Spans -/

/-- The number at the end of a command, as a server reads it. -/
def lastNumber? (w : WireCommand) : Option UInt64 :=
  w.getLast?.bind fun argument => (Numeral.readUnsigned argument).toOption

/-- The commands that carry a span: of the two direct requests, and of the two queued commands. -/
def spanCommands (key : String) (value : Bytes) (d : Duration) : List WireCommand :=
  wire (.set key value (some d)) ++ wire (.expire key d)
    ++ [Command.wire (.set key value (some d)), Command.wire (.expire key d)]

/-- **So many milliseconds are this span**, give or take one. -/
def WithinMilli (millis : Nat) (d : Duration) : Prop :=
  millis * 1000000 ≤ d.nanoseconds + 1000000 ∧ d.nanoseconds ≤ millis * 1000000 + 1000000

theorem toNat_ttlMillis (d : Duration) :
    (ttlMillis d).toNat = max (d.wholeMillis % 0x10000000000000000) 1 := by
  have hone : (1 : UInt64).toNat = 1 := rfl
  have hmillis : d.millis64.toNat = d.wholeMillis % 0x10000000000000000 := UInt64.toNat_ofNat'
  rw [← hmillis, ← hone, ttlMillis]
  change (if d.millis64 ≤ 1 then 1 else d.millis64).toNat = _
  split
  · rename_i hle
    exact (Nat.max_eq_right (UInt64.le_iff_toNat_le.mp hle)).symm
  · rename_i hnot
    exact (Nat.max_eq_left (Nat.le_of_not_le fun hle => hnot (UInt64.le_iff_toNat_le.mpr hle))).symm

/-- Every command that carries a span ends with the same number. -/
theorem lastNumber?_of_mem {key : String} {value : Bytes} {d : Duration} {w : WireCommand}
    (h : w ∈ spanCommands key value d) : lastNumber? w = some (ttlMillis d) := by
  have hread : (Numeral.readUnsigned (ttlArgument d)).toOption = some (ttlMillis d) := by
    rw [ttlArgument, integerArgument, Numeral.readUnsigned_encode]
    rfl
  simp only [spanCommands, wire, Helpers.wire, setWire, expireWire, Command.wire, Option.elim,
    List.mem_append, List.mem_cons, List.not_mem_nil, or_false] at h
  rcases h with (rfl | rfl) | rfl | rfl <;> exact hread

/-- A number of milliseconds that fits is within a millisecond of the span, and no other is. -/
theorem withinMilli_ttlMillis_iff (d : Duration) :
    WithinMilli (ttlMillis d).toNat d ↔ d.wholeMillis < 0x10000000000000000 := by
  rw [toNat_ttlMillis]
  unfold WithinMilli Duration.wholeMillis
  omega

/-- **A span is sent to within a millisecond exactly if its whole milliseconds have 64 bits.** The number
that is sent is never zero, and among spans that fit a longer one is never sent as a smaller number. -/
theorem span_sent_exactly_if_fits (key : String) (value : Bytes) (d : Duration) :
    (∀ w ∈ spanCommands key value d, ∃ n, lastNumber? w = some n ∧ 1 ≤ n.toNat ∧
      (WithinMilli n.toNat d ↔ d.wholeMillis < 0x10000000000000000)) ∧
    (∀ d' : Duration, d.nanoseconds ≤ d'.nanoseconds → d'.wholeMillis < 0x10000000000000000 →
      ∀ w ∈ spanCommands key value d, ∀ w' ∈ spanCommands key value d',
        ∃ n n', lastNumber? w = some n ∧ lastNumber? w' = some n' ∧ n ≤ n') ∧
    ∀ (c : Client) (call : Call Transaction),
      Client.view.Receives (callConnection c call) c (c.call call).2 (callWires call) := by
  refine ⟨fun w hw => ?_, fun d' hle hfits w hw w' hw' => ?_, fun c call => c.call_received call⟩
  · refine ⟨ttlMillis d, lastNumber?_of_mem hw, ?_, withinMilli_ttlMillis_iff d⟩
    rw [toNat_ttlMillis]
    exact Nat.le_max_right ..
  · refine ⟨_, _, lastNumber?_of_mem hw, lastNumber?_of_mem hw', ?_⟩
    have hmillis : d.wholeMillis ≤ d'.wholeMillis := Nat.div_le_div_right hle
    rw [UInt64.le_iff_toNat_le, toNat_ttlMillis, toNat_ttlMillis]
    omega

/-- A span of half a billion years is sent as less than half a second, and a span of a second as a second. -/
theorem long_span_cut :
    let long := Duration.ofSeconds 18446744073709552
    (∀ w ∈ spanCommands "k" [] long, lastNumber? w = some 384) ∧ ¬ WithinMilli 384 long ∧
      ∀ w ∈ spanCommands "k" [] (.ofSeconds 1), lastNumber? w = some 1000 := by
  intro long
  have hlong : ttlMillis long = 384 := by decide
  have hshort : ttlMillis (.ofSeconds 1) = 1000 := by decide
  refine ⟨fun w hw => hlong ▸ lastNumber?_of_mem hw, ?_, fun w hw => hshort ▸ lastNumber?_of_mem hw⟩
  rintro ⟨-, hfar⟩
  exact absurd hfar (by decide)

end WatchedStore.Remote
