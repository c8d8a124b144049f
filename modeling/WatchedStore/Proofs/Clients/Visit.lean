import WatchedStore.Proofs.Memory.Live

/-!
# Calls as clients make them

A `Visit` is a call together with what it met: the reading of the clock and the store. What it did to the
store is told by what keys hold before it and after it, both at its own reading, so an entry that passed
its deadline in the meantime is no effect of the call that removed it.

**The laws**: watches, reads, commits that are not carried out, and transactions that are given up are
quiet (`Quiet`). All that a client does before its commit is therefore without effect.
-/

namespace WatchedStore

/-- The replies of a commit that was carried out. -/
def Call.replies? {τ : Type} : (c : Call τ) → Except Error c.Answer → Option (List Reply)
  | .exec _ _, .ok (some replies) => some replies
  | _, _ => none

end WatchedStore

namespace WatchedStore.Memory

/-- **A call that a client made**: at what reading, and what store it met. -/
structure Visit where
  now : Instant
  store : Store
  call : Call Transaction

namespace Visit

/-- The answer that the client got. -/
def answer (v : Visit) : Except Error v.call.Answer := (v.store.call v.now v.call).1

/-- The store that the call left behind. -/
def left (v : Visit) : Store := (v.store.call v.now v.call).2

/-- What a key holds before the call, at its reading. -/
def before (v : Visit) : String → Option Entry := v.store.state.live v.now

/-- What a key holds after the call, at its reading. -/
def after (v : Visit) : String → Option Entry := v.left.state.live v.now

/-- The replies of a commit that was carried out. -/
def replies? (v : Visit) : Option (List Reply) := v.call.replies? v.answer

/-- **A call that changed what no key holds.** -/
def Quiet (v : Visit) : Prop := v.after = v.before

/-- **A commit that was carried out**, with every command of its queue. -/
def commits (v : Visit) : Bool :=
  match v.replies? with
  | some replies => (Reply.check replies).isOk
  | none => false

/-- **A call without any effect**: no key holds anything else, and no queue was carried out. -/
structure Idle (v : Visit) : Prop where
  quiet : v.Quiet
  not_commits : v.commits = false

/-- A commit that made one key hold an entry and left all others alone. -/
structure Writes (v : Visit) (key : String) (e : Entry) : Prop where
  commit : ∃ tx commands, v.call = .exec tx commands
  held : v.after key = some e
  others : ∀ k, k ≠ key → v.after k = v.before k

variable (now : Instant) (s : Store) (tx : Transaction)

theorem quiet_watch (keys : List String) : Quiet ⟨now, s, .watch keys⟩ :=
  live_call_watch s keys now

theorem quiet_txGet (key : String) : Quiet ⟨now, s, .txGet tx key⟩ :=
  live_call_txGet s tx key now

theorem quiet_discard : Quiet ⟨now, s, .discard tx⟩ := rfl

theorem idle_watch (keys : List String) : Idle ⟨now, s, .watch keys⟩ := ⟨quiet_watch now s keys, rfl⟩

theorem idle_txGet (key : String) : Idle ⟨now, s, .txGet tx key⟩ := ⟨quiet_txGet now s tx key, rfl⟩

theorem idle_discard : Idle ⟨now, s, .discard tx⟩ := ⟨rfl, rfl⟩

theorem quiet_exec (commands : List Command) (h : s.poisoned = true ∨ ¬ Passes tx now s) :
    Quiet ⟨now, s, .exec tx commands⟩ :=
  live_call_exec s tx commands now h

/-- A commit is carried out only under a sound lock and with no watched key changed. -/
theorem passes_of_replies {v : Visit} {tx : Transaction} {commands : List Command}
    {replies : List Reply} (hcall : v.call = .exec tx commands) (h : v.replies? = some replies) :
    v.store.poisoned = false ∧ Passes tx v.now v.store := by
  obtain ⟨now, s, call⟩ := v
  cases hcall
  simp only [replies?, answer] at h
  cases hp : s.poisoned with
  | true =>
    rw [call_exec_of_poisoned hp] at h
    cases h
  | false =>
    refine ⟨rfl, Classical.not_not.mp fun hnot => ?_⟩
    rw [(call_exec_eq_none_iff s tx commands now).mpr ⟨hp, hnot⟩] at h
    cases h

end Visit

end WatchedStore.Memory
