import WatchedStore.Proofs.Memory.Conflict
import WatchedStore.Proofs.Memory.Footprint
import WatchedStore.Proofs.Memory.Issue

/-!
# What makes a store unusable

Adding a span to the clock crashes if the clock cannot show the end (`State.deadlineOverflow`). The store
does so under its lock, in a write with a span of life and in a change of a deadline, be it a direct
operation or a command of a batch or a commit. Nothing else crashes; everything else that fails is a
rejection (`FailsBy`, one lemma for each level, from rules to calls).

**The law** (`unusable_iff_overruns`): a store becomes unusable exactly by such a call. The lock stays
poisoned, so from then on every operation that needs it fails. There are arguments that do this to a sound
store (`unusable_after_set`), although other arguments out of range, such as an amount without a negative,
are rejected.
-/

namespace WatchedStore

/-- Whether a call needs the lock. Giving a transaction up does not, and the subtraction of the smallest
integer is refused before. -/
def Call.Locks {τ : Type} : Call τ → Prop
  | .request (.decrement _ amount) => amount ≠ Int64.minValue
  | .discard _ => False
  | _ => True

namespace Memory

/-! ## Overrunning deadlines -/

namespace State

/-- **A command whose deadline overruns the clock**, where it comes to setting one: a write with a span of
life, if there is room, and another deadline for a key that is there. -/
def Overruns (s : State) (max : Nat) (now : Instant) : Command → Prop
  | .set key _ ttl =>
    (s.purge key now).isFull key max = false ∧ ∃ d, ttl = some d ∧ Instant.after? now d = none
  | .expire key ttl => s.live now key ≠ none ∧ Instant.after? now ttl = none
  | _ => False

/-- Whether the deadline of one of the commands overruns when its turn comes. -/
def OverrunsAmong (max : Nat) (now : Instant) : State → List Command → Prop
  | _, [] => False
  | s, c :: rest => s.Overruns max now c ∨ (s.apply c max now).2.OverrunsAmong max now rest

end State

/-- **A call that sets a deadline that overruns the clock.** A commit sets none if it is refused. -/
def Store.Overruns (now : Instant) (s : Store) : Call Transaction → Prop
  | .request (.set key value ttl) => s.state.Overruns s.maxEntries now (.set key value ttl)
  | .request (.expire key ttl) => s.state.Overruns s.maxEntries now (.expire key ttl)
  | .request (.batch commands) => s.state.OverrunsAmong s.maxEntries now commands
  | .exec tx commands => Passes tx now s ∧
    (s.state.unchanged tx.watched now).2.OverrunsAmong s.maxEntries now commands
  | _ => False

/-- Whether a deed sets a deadline that overruns the clock. -/
def Deed.Overruns (now : Instant) (s : Store) : Deed → Prop
  | .call c => s.Overruns now c
  | .cleanUp => False

/-- Whether one of the deeds overruns when its turn comes. -/
def Store.OverranDuring : Store → List (Instant × Deed) → Prop
  | _, [] => False
  | s, (now, d) :: rest => d.Overruns now s ∨ (s.perform now d).OverranDuring rest

/-- **An answer that fails by rejections**, and by a crash exactly if a deadline overruns. -/
structure FailsBy (overruns : Prop) (answer : Except Error α) : Prop where
  crashes : crashed answer = true ↔ overruns
  rejects : ∀ e, answer = .error e → (∃ reason, e = .command reason) ∨ e = State.deadlineOverflow

namespace FailsBy

variable {overruns : Prop} {answer : Except Error α}

theorem of_ok (a : α) : FailsBy False (.ok a : Except Error α) where
  crashes := ⟨fun h => (by cases h), False.elim⟩
  rejects _ h := by cases h

theorem map (h : FailsBy overruns answer) (f : α → β) : FailsBy overruns (answer.map f) where
  crashes := by rw [Rule.crashed_map]; exact h.crashes
  rejects e he := by
    cases answer with
    | error e' =>
      cases he
      exact h.rejects e rfl
    | ok a => cases he

theorem eq_deadlineOverflow (h : FailsBy overruns answer) (ho : overruns) :
    answer = .error State.deadlineOverflow := by
  have hcrash := h.crashes.mpr ho
  cases answer with
  | ok a => cases hcrash
  | error e =>
    rcases h.rejects e rfl with ⟨reason, rfl⟩ | rfl
    · cases hcrash
    · rfl

/-- Without an overrun there is a value or a rejection. -/
theorem ok_or_command (h : FailsBy overruns answer) (ho : ¬ overruns) :
    (∃ a, answer = .ok a) ∨ ∃ reason, answer = .error (.command reason) := by
  cases answer with
  | ok a => exact .inl ⟨a, rfl⟩
  | error e =>
    rcases h.rejects e rfl with ⟨reason, rfl⟩ | rfl
    · exact .inr ⟨reason, rfl⟩
    · exact absurd (h.crashes.mp rfl) ho

end FailsBy

variable {now : Instant} {held : Option Entry} {full : Bool}

/-! ## Rules -/

namespace Rule

theorem Clean.failsBy {rule : Rule α} (h : rule.Clean) (hrejects : rule.Rejects) (held : Option Entry)
    (full : Bool) : FailsBy False (rule held full).1 where
  crashes := by rw [h.calm]; exact ⟨fun h => (by cases h), False.elim⟩
  rejects := hrejects held full

theorem set_failsBy (value : Bytes) (ttl : Option Duration) (now : Instant) (held : Option Entry)
    (full : Bool) :
    FailsBy (full = false ∧ ∃ d, ttl = some d ∧ Instant.after? now d = none)
      (set value ttl now held full).1 where
  crashes := by
    unfold set State.deadline
    cases full with
    | true => simp [crashed, Error.capacityExceeded]
    | false =>
      cases ttl with
      | none => simp [crashed]
      | some d => cases h : Instant.after? now d <;> simp [crashed, h, State.deadlineOverflow]
  rejects := set_rejects value ttl now held full

theorem expire_failsBy (ttl : Duration) (now : Instant) (held : Option Entry) (full : Bool) :
    FailsBy (held ≠ none ∧ Instant.after? now ttl = none) (expire ttl now held full).1 where
  crashes := by
    unfold expire State.deadline
    cases held with
    | none => simp [crashed]
    | some e => cases h : Instant.after? now ttl <;> simp [crashed, h, State.deadlineOverflow]
  rejects := expire_rejects ttl now held full

end Rule

/-! ## Commands -/

namespace State

variable {s : State} {max : Nat}

theorem set_failsBy (s : State) (key : String) (value : Bytes) (ttl : Option Duration) (max : Nat)
    (now : Instant) :
    FailsBy (s.Overruns max now (.set key value ttl)) (s.set key value ttl max now).1 := by
  rw [set_eq_follow, follow_fst]
  exact Rule.set_failsBy value ttl now _ _

theorem expire_failsBy (s : State) (key : String) (ttl : Duration) (max : Nat) (now : Instant) :
    FailsBy (s.Overruns max now (.expire key ttl)) (s.expire key ttl now).1 := by
  rw [expire_eq_follow s key max, follow_fst]
  exact Rule.expire_failsBy ttl now _ _

/-- **A command crashes exactly if its deadline overruns.** -/
theorem apply_failsBy (s : State) (c : Command) (max : Nat) (now : Instant) :
    FailsBy (s.Overruns max now c) (s.apply c max now).1 := by
  rw [apply_eq_follow, follow_fst]
  have hcalm : ∀ {α : Type} {rule : Rule α} (f : α → Reply), rule.Clean → rule.Rejects →
      FailsBy False (rule.map f (s.live now c.key) ((s.purge c.key now).isFull c.key max)).1 :=
    fun f hclean hrejects => (hclean.failsBy hrejects _ _).map f
  cases c with
  | set key value ttl => exact (Rule.set_failsBy value ttl now _ _).map _
  | expire key ttl => exact (Rule.expire_failsBy ttl now _ _).map _
  | get key => exact hcalm _ Rule.get_clean Rule.get_rejects
  | increment key amount =>
    exact hcalm _ (Rule.increment_clean key amount) (Rule.increment_rejects key amount)
  | delete key => exact hcalm _ Rule.delete_clean Rule.delete_rejects
  | setAdd key member => exact hcalm _ (Rule.setAdd_clean member) (Rule.setAdd_rejects member)
  | setRemove key member => exact hcalm _ (Rule.setRemove_clean member) (Rule.setRemove_rejects member)

/-- **A batch crashes exactly if one of its commands overruns** when its turn comes. -/
theorem applyAll_failsBy (s : State) (commands : List Command) (max : Nat) (now : Instant) :
    FailsBy (s.OverrunsAmong max now commands) (s.applyAll commands max now).1 := by
  induction commands generalizing s with
  | nil => exact .of_ok []
  | cons c rest ih =>
    have hfirst := s.apply_failsBy c max now
    by_cases ho : s.Overruns max now c
    · rw [applyAll_cons_crash s max now c rest (hfirst.eq_deadlineOverflow ho)]
      exact ⟨⟨fun _ => .inl ho, fun _ => rfl⟩, fun e he => by cases he; exact .inr rfl⟩
    · have hcalm : ∀ reason, (s.apply c max now).1 ≠ .error (.crash reason) := fun reason h =>
        ho (hfirst.crashes.mp (by rw [h]; rfl))
      have hrest := (ih (s.apply c max now).2).map (.ofAnswer (s.apply c max now).1 :: ·)
      rw [applyAll_cons s max now c rest hcalm, applyAll.cons_fst]
      exact ⟨hrest.crashes.trans (or_iff_right ho).symm, hrest.rejects⟩

/-- **A commit crashes exactly if it passes and one of its commands overruns.** -/
theorem exec_failsBy (s : State) (watched : List (String × Nat)) (commands : List Command) (max : Nat)
    (now : Instant) :
    FailsBy ((s.unchanged watched now).1 = true ∧
      (s.unchanged watched now).2.OverrunsAmong max now commands) (s.exec watched commands max now).1 := by
  rw [exec_eq]
  split
  · rename_i hpass
    have hbatch := ((s.unchanged watched now).2.applyAll_failsBy commands max now).map some
    exact ⟨hbatch.crashes.trans (and_iff_right hpass).symm, hbatch.rejects⟩
  · rename_i hnot
    exact ⟨⟨fun h => (by cases h), fun h => absurd h.1 hnot⟩, fun _ h => by cases h⟩

end State

/-! ## Calls -/

section Calls

variable {s : Store}

theorem locked_failsBy {overruns : Prop} {f : State → Except Error α × State}
    (hsound : s.poisoned = false) (h : FailsBy overruns (f s.state).1) :
    FailsBy overruns (s.locked f).1 := by
  rw [Store.locked_of_sound hsound]
  exact h

/-- A direct operation that follows a clean rule does not crash. -/
theorem request_failsBy_of_clean {r : Request} {key : String} {rule : Rule r.Answer}
    (hsound : s.poisoned = false) (hrule : Rule.Decides now r key rule) (hrep : r.Representable now) :
    FailsBy False (s.request now r).1 := by
  rw [request_fst_of_sound hsound hrule]
  exact (hrule.clean hrep).failsBy hrule.rejects _ _

/-- **A direct operation under a sound lock crashes exactly if it overruns.** -/
theorem request_failsBy (hsound : s.poisoned = false) (now : Instant) (r : Request) :
    FailsBy (s.Overruns now (.request r)) (s.request now r).1 := by
  cases r with
  | set key value ttl => exact locked_failsBy hsound (s.state.set_failsBy key value ttl s.maxEntries now)
  | expire key ttl => exact locked_failsBy hsound (s.state.expire_failsBy key ttl s.maxEntries now)
  | batch commands => exact locked_failsBy hsound (s.state.applyAll_failsBy commands s.maxEntries now)
  | decrement key amount =>
    cases hneg : Numeral.neg? amount with
    | some negated => exact request_failsBy_of_clean hsound (.decrement key hneg) trivial
    | none =>
      rw [Store.request, hneg]
      exact ⟨⟨fun h => (by cases h), False.elim⟩, fun e he => by cases he; exact .inl ⟨_, rfl⟩⟩
  | get key => exact request_failsBy_of_clean hsound (.get key) trivial
  | getSet key value => exact request_failsBy_of_clean hsound (.getSet key value) trivial
  | increment key amount => exact request_failsBy_of_clean hsound (.increment key amount) trivial
  | contains key => exact request_failsBy_of_clean hsound (.contains key) trivial
  | delete key => exact request_failsBy_of_clean hsound (.delete key) trivial
  | setAdd key member => exact request_failsBy_of_clean hsound (.setAdd key member) trivial
  | setRemove key member => exact request_failsBy_of_clean hsound (.setRemove key member) trivial
  | setMembers key => exact request_failsBy_of_clean hsound (.setMembers key) trivial

/-- **A call under a sound lock crashes exactly if it overruns.** -/
theorem call_failsBy (hsound : s.poisoned = false) (now : Instant) (c : Call Transaction) :
    FailsBy (s.Overruns now c) (s.call now c).1 := by
  cases c with
  | request r => exact request_failsBy hsound now r
  | watch keys =>
    rw [call_watch_of_sound hsound]
    exact .of_ok _
  | txGet tx key =>
    rw [call_txGet_of_sound hsound]
    exact Rule.get_clean.failsBy Rule.get_rejects _ _
  | exec tx commands =>
    rw [call_exec_of_sound hsound]
    exact s.state.exec_failsBy tx.watched commands s.maxEntries now
  | discard tx => exact .of_ok ()

/-- **Under a poisoned lock every call that needs it fails**, and nothing happens. -/
theorem call_of_poisoned (hp : s.poisoned = true) (now : Instant) {c : Call Transaction} (h : c.Locks) :
    s.call now c = (.error Store.lockPoisoned, s) := by
  cases c with
  | request r =>
    cases r with
    | decrement key amount =>
      have hneg : Numeral.neg? amount = some (-amount) := if_neg h
      exact request_of_poisoned hp (.decrement key hneg)
    | batch commands => exact Store.locked_of_poisoned hp _
    | get key => exact request_of_poisoned hp (.get key)
    | set key value ttl => exact request_of_poisoned hp (.set key value ttl)
    | getSet key value => exact request_of_poisoned hp (.getSet key value)
    | increment key amount => exact request_of_poisoned hp (.increment key amount)
    | expire key ttl => exact request_of_poisoned hp (.expire key ttl)
    | contains key => exact request_of_poisoned hp (.contains key)
    | delete key => exact request_of_poisoned hp (.delete key)
    | setAdd key member => exact request_of_poisoned hp (.setAdd key member)
    | setRemove key member => exact request_of_poisoned hp (.setRemove key member)
    | setMembers key => exact request_of_poisoned hp (.setMembers key)
  | watch keys => exact call_watch_of_poisoned hp keys now
  | txGet tx key => exact call_txGet_of_poisoned hp tx key now
  | exec tx commands => exact call_exec_of_poisoned hp tx commands now
  | discard tx => exact h.elim

end Calls

/-! ## Deadlines that the clock can show -/

theorem State.not_overruns (s : State) (max : Nat) {c : Command} (h : c.Representable now) :
    ¬ s.Overruns max now c := by
  intro ho
  cases c with
  | set key value ttl =>
    obtain ⟨-, d, rfl, hnone⟩ := ho
    rw [Command.Representable, hnone] at h
    cases h
  | expire key ttl =>
    rw [Command.Representable, ho.2] at h
    cases h
  | _ => exact ho

theorem State.not_overrunsAmong {s : State} {max : Nat} {commands : List Command}
    (h : ∀ c ∈ commands, c.Representable now) : ¬ s.OverrunsAmong max now commands := by
  induction commands generalizing s with
  | nil => exact id
  | cons c rest ih =>
    obtain ⟨hc, hrest⟩ := List.forall_mem_cons.mp h
    exact not_or.mpr ⟨s.not_overruns max hc, ih hrest⟩

/-- A call whose deadlines the clock can show does not overrun. -/
theorem not_overruns {s : Store} {c : Call Transaction} (h : c.Representable now) :
    ¬ s.Overruns now c := by
  cases c with
  | request r =>
    cases r with
    | set key value ttl =>
      have hset : (Command.set key value ttl).Representable now := by cases ttl <;> exact h
      exact s.state.not_overruns s.maxEntries hset
    | expire key ttl =>
      have hexpire : (Command.expire key ttl).Representable now := h
      exact s.state.not_overruns s.maxEntries hexpire
    | batch commands => exact State.not_overrunsAmong h
    | _ => exact id
  | exec tx commands => exact fun ho => State.not_overrunsAmong h ho.2
  | _ => exact id

/-! ## Runs -/

section Runs

variable {s : Store} {run : List (Instant × Deed)}

/-- **Something crashed during a run exactly if a deadline overran.** -/
theorem crashedDuring_iff (hsound : s.poisoned = false) (run : List (Instant × Deed)) :
    s.CrashedDuring run ↔ s.OverranDuring run := by
  induction run generalizing s with
  | nil => exact Iff.rfl
  | cons step rest ih =>
    obtain ⟨now, d⟩ := step
    have hstep : s.Crashes now d ↔ d.Overruns now s := by
      cases d with
      | call c => exact (call_failsBy hsound now c).crashes
      | cleanUp => exact Iff.rfl
    rw [Store.CrashedDuring, Store.OverranDuring, ← hstep]
    cases hp : (s.perform now d).poisoned with
    | true =>
      -- what comes behind a crash makes no difference
      have hcrash := (poisoned_perform hsound now d).mp hp
      exact ⟨fun _ => .inl hcrash, fun _ => .inl hcrash⟩
    | false => exact or_congr_right (ih hp)

theorem not_overranDuring (s : Store)
    (h : ∀ step ∈ run, ∀ c, step.2 = .call c → c.Representable step.1) : ¬ s.OverranDuring run := by
  induction run generalizing s with
  | nil => exact id
  | cons step rest ih =>
    obtain ⟨now, d⟩ := step
    obtain ⟨hstep, hrest⟩ := List.forall_mem_cons.mp h
    refine not_or.mpr ⟨?_, ih (s.perform now d) hrest⟩
    cases d with
    | call c => exact not_overruns (hstep c rfl)
    | cleanUp => exact id

end Runs

/-- **A store becomes unusable exactly by a deadline that overruns the clock.** Let a store be any.

Under a sound lock a call that overruns crashes; every other call, with whatever arguments, is answered by a
value or a rejection. Over any run of calls and clean-ups the lock becomes poisoned exactly if a call
overruns at its turn; so it stays sound if all deadlines are such that the clock can show them. Under a
poisoned lock every call that needs the lock fails by that, and so does the count of keys, and no run
changes anything any more. -/
theorem unusable_iff_overruns (s : Store) :
    (s.poisoned = false →
      (∀ now c, s.Overruns now c → (s.call now c).1 = .error State.deadlineOverflow) ∧
      (∀ now c, ¬ s.Overruns now c →
        (∃ a, (s.call now c).1 = .ok a) ∨ ∃ reason, (s.call now c).1 = .error (.command reason)) ∧
      (∀ run, (s.after run).poisoned = true ↔ s.OverranDuring run) ∧
      (∀ run, (∀ step ∈ run, ∀ c, step.2 = .call c → c.Representable step.1) →
        (s.after run).poisoned = false)) ∧
    (s.poisoned = true →
      (∀ now c, c.Locks → s.call now c = (.error Store.lockPoisoned, s)) ∧
      s.size = .error Store.lockPoisoned ∧ ∀ run, s.after run = s) := by
  refine ⟨fun hsound => ⟨fun now c ho => ?_, fun now c ho => ?_, fun run => ?_, fun run hrep => ?_⟩,
    fun hp => ⟨fun now c h => call_of_poisoned hp now h, if_pos hp, after_of_poisoned hp⟩⟩
  · exact (call_failsBy hsound now c).eq_deadlineOverflow ho
  · exact (call_failsBy hsound now c).ok_or_command ho
  · exact (poisoned_after hsound run).trans (crashedDuring_iff hsound run)
  · refine Bool.eq_false_iff.mpr fun hp => not_overranDuring s hrep ?_
    exact (crashedDuring_iff hsound run).mp ((poisoned_after hsound run).mp hp)

/-- **One write makes an empty store unusable.** It is not so that every call on a reachable store under a
sound lock goes without a crash, and that no later call fails by the lock: a span of the greatest number of
seconds is an argument like any other. -/
theorem unusable_after_set :
    ¬ ∀ (t now later : Instant) (s : Store) (c c' : Call Transaction), Reachable t s →
      s.poisoned = false → t ≤ now → now ≤ later →
      crashed (s.call now c).1 = false ∧
        ((s.call now c).2.call later c').1 ≠ .error Store.lockPoisoned := by
  intro hall
  let ttl : Duration := .ofSeconds 18446744073709551615
  let write : Call Transaction := .request (.set "a" [0x78] (some ttl))
  obtain ⟨-, hlater⟩ := hall 0 0 0 { maxEntries := 2 } write (.request (.get "a")) ⟨2, .refl⟩ rfl
    (Nat.le_refl 0) (Nat.le_refl 0)
  have hpoisoned : (({ maxEntries := 2 } : Store).call 0 write).2.poisoned = true := by decide
  have hlocks : (Call.request (.get "a") : Call Transaction).Locks := trivial
  exact hlater (congrArg Prod.fst (call_of_poisoned hpoisoned 0 hlocks))

end Memory

end WatchedStore
