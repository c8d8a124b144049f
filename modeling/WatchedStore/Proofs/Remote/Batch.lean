import WatchedStore.Proofs.Memory.Issue
import WatchedStore.Proofs.Remote.Delivery

/-!
# Batches on the wire

A queued command and the direct request that it stands for (`Command.request`) are written by separate
functions, the one in a single row of its arguments, the other by a helper of the driver or in a row of its
own. Of the helpers only the five that queued commands have a counterpart of are looked at, and they are
taken to write what is documented (`Helpers.Documented`). What is sent is read off a server that answers
every command (`Driver.Steady`): it receives all that is written, and no connection changes
(`Driver.Sends`).

**The law** (`batch_sends_requests`): a batch sends what its commands send one after the other as direct
requests, byte for byte and in their order, and a commit of the same commands sends this between the commands
that open and close it. With a server that falls silent or hangs up a batch and a commit still send nothing
else, but the server may receive no more than the first of it (`View.Receives`).

The step is that a command is written as its request is (`Helpers.Documented.wire_request`), the run an
induction on the commands that are issued (`issue_sends`).
-/

namespace WatchedStore.Remote

/-! ## Writing -/

namespace Helpers

/-- **The helpers write what is documented**: the name of their command, and then their arguments. -/
structure Documented (h : Helpers) : Prop where
  get : ∀ key, h.get key = [textArgument "GET", textArgument key]
  increment : ∀ key amount,
    h.increment key amount = [textArgument "INCRBY", textArgument key, integerArgument amount.toInt]
  delete : ∀ key, h.delete key = [textArgument "DEL", textArgument key]
  setAdd : ∀ key member, h.setAdd key member = [textArgument "SADD", textArgument key, member]
  setRemove : ∀ key member, h.setRemove key member = [textArgument "SREM", textArgument key, member]

theorem standard_documented : standard.Documented :=
  ⟨fun _ => rfl, fun _ _ => rfl, fun _ => rfl, fun _ _ => rfl, fun _ _ => rfl⟩

/-- What the direct requests of commands write, one after the other. -/
def requestWires (h : Helpers) (commands : List Command) : List WireCommand :=
  commands.flatMap fun command => h.wire command.request

namespace Documented

variable {h : Helpers} (hdocumented : h.Documented)
include hdocumented

/-- **A queued command is written as its direct request is.** -/
theorem wire_request (command : Command) : h.wire command.request = [Command.wire command] := by
  cases command with
  | get key => exact congrArg ([·]) (hdocumented.get key)
  | set key value ttl => cases ttl <;> rfl
  | increment key amount => exact congrArg ([·]) (hdocumented.increment key amount)
  | expire key ttl => rfl
  | delete key => exact congrArg ([·]) (hdocumented.delete key)
  | setAdd key member => exact congrArg ([·]) (hdocumented.setAdd key member)
  | setRemove key member => exact congrArg ([·]) (hdocumented.setRemove key member)

theorem map_wire_eq (commands : List Command) : commands.map Command.wire = h.requestWires commands := by
  induction commands with
  | nil => rfl
  | cons command rest ih =>
    rw [requestWires, List.flatMap_cons, hdocumented.wire_request, ← requestWires, ← ih]
    rfl

end Documented

end Helpers

/-! ## Sending -/

namespace Driver

variable {σ : Type} {d : Driver σ} {v : View σ} {s : σ}

/-- **A state in good standing**: the server answers every command, and the shared connection is in use. -/
structure Steady (d : Driver σ) (v : View σ) (s : σ) : Prop where
  answers : v.Answers s
  inUse : (v.closed s).contains (d.shared s) = false

/-- Good standing lasts while commands are sent. -/
theorem Sends.steady {connection : Nat} {ws : List WireCommand} {s' : σ}
    (h : d.Sends v connection ws s s') (hs : d.Steady v s) : d.Steady v s' :=
  ⟨h.answers, by rw [h.closed, h.shared]; exact hs.inUse⟩

/-- **Issues commands one after the other**, each as its direct request, whatever is answered. -/
def issue (d : Driver σ) : List Command → σ → σ
  | [], s => s
  | command :: rest, s => d.issue rest (d.request command.request s).2

theorem issue_sends (hdelivers : d.Delivers v) (commands : List Command) (hs : d.Steady v s) :
    d.Sends v (d.shared s) (d.helpers.requestWires commands) s (d.issue commands s) := by
  induction commands generalizing s with
  | nil => exact ⟨(List.append_nil _).symm, hs.answers, rfl, rfl⟩
  | cons command rest ih =>
    have hfirst := (request_delivered hdelivers command.request s).all hs.answers hs.inUse
    have hrest := ih (hfirst.steady hs)
    rw [hfirst.shared] at hrest
    exact hfirst.trans hrest

end Driver

/-- **A batch sends what its commands send as direct requests**, and a commit sends the same between the
commands that open and close it. Whatever the server does, it receives the first of this and nothing else. -/
theorem batch_sends_requests {σ : Type} {d : Driver σ} {v : View σ} (hdocumented : d.helpers.Documented)
    (hdelivers : d.Delivers v) (commands : List Command) :
    (∀ s, d.Steady v s →
      d.Sends v (d.shared s) (d.helpers.requestWires commands) s (d.issue commands s) ∧
      d.Sends v (d.shared s) (d.helpers.requestWires commands) s (d.request (.batch commands) s).2 ∧
      ∀ tx : Transaction, commands ≠ [] → (v.closed s).contains tx.connection = false →
        d.Sends v tx.connection
          ([textArgument "MULTI"] :: d.helpers.requestWires commands ++ [[textArgument "EXEC"]])
          s (d.exec tx commands s).2) ∧
    (∀ s, v.Receives (d.shared s) s (d.request (.batch commands) s).2
      (d.helpers.requestWires commands)) ∧
    ∀ (s : σ) (tx : Transaction), commands ≠ [] →
      v.Receives tx.connection s (d.exec tx commands s).2
        ([textArgument "MULTI"] :: d.helpers.requestWires commands ++ [[textArgument "EXEC"]]) := by
  have hbatch (s : σ) : d.Delivered v (d.shared s) (d.helpers.requestWires commands) s
      (d.request (.batch commands) s).2 := by
    rw [← hdocumented.map_wire_eq]
    exact Driver.request_delivered hdelivers (.batch commands) s
  have hexec (s : σ) (tx : Transaction) (hcommands : commands ≠ []) :
      d.Delivered v tx.connection (committed (d.helpers.requestWires commands)) s
        (d.exec tx commands s).2 := by
    rw [← hdocumented.map_wire_eq]
    exact Driver.exec_delivered hdelivers tx hcommands s
  exact ⟨fun s hs => ⟨Driver.issue_sends hdelivers commands hs, (hbatch s).all hs.answers hs.inUse,
      fun tx hcommands hopen => (hexec s tx hcommands).all hs.answers hopen⟩,
    fun s => (hbatch s).first, fun s tx hcommands => (hexec s tx hcommands).first⟩

/-- A write with a span and a new member, on a server that answers the first and is then out of turns: sent
one by one, as a batch, and as a commit. -/
theorem batch_sends_requests_span :
    let d := Client.driver
    let c : Client := { settings := {}, script := { turns := [.answer (.simple "OK")] } }
    let commands : List Command := [.set "k" [0x00, 0xFF] (some (.ofMillis 1500)), .setAdd "s" [0x0D]]
    let ws : List WireCommand := [
      [textArgument "SET", textArgument "k", [0x00, 0xFF], textArgument "PX", textArgument "1500"],
      [textArgument "SADD", textArgument "s", [0x0D]]]
    d.Steady Client.view c ∧ d.Sends Client.view 0 ws c (d.issue commands c) ∧
      d.Sends Client.view 0 ws c (d.request (.batch commands) c).2 ∧
      d.Sends Client.view 1 ([textArgument "MULTI"] :: ws ++ [[textArgument "EXEC"]]) c
        (d.exec ⟨1, ["k"]⟩ commands c).2 := by
  intro d c commands ws
  have hsteady : d.Steady Client.view c := ⟨by simp [Client.view, c], rfl⟩
  have hws : Helpers.standard.requestWires commands = ws := by decide +kernel
  obtain ⟨hsends, -⟩ :=
    batch_sends_requests (d := Client.driver) Helpers.standard_documented Client.delivers commands
  obtain ⟨hone, hbatch, hexec⟩ := hsends c hsteady
  change d.Sends _ 0 (Helpers.standard.requestWires commands) _ _ at hone hbatch
  rw [hws] at hone hbatch
  refine ⟨hsteady, hone, hbatch, ?_⟩
  rw [← hws]
  exact hexec ⟨1, ["k"]⟩ (List.cons_ne_nil _ _) rfl

end WatchedStore.Remote
