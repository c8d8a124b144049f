import WatchedStore.Proofs.Memory.Change

/-!
# Batches, commits and clean-ups

A batch carries out its commands one after the other. The answer of each is told in the batch's own answer;
only a crash breaks it off (`applyAll_cons`, `applyAll_cons_crash`). Opening a transaction, the check of a
commit, and a clean-up do nothing but purge keys (`Purges`), which nobody can see at that reading of the
clock (`Purges.live`). A commit is a check, and behind it a batch (`exec_eq`).
-/

namespace WatchedStore.Memory

/-- Whether an answer is a crash. -/
def crashed : Except Error α → Bool
  | .error (.crash _) => true
  | _ => false

/-- Any number of purges at one reading of the clock. -/
inductive Purges (now : Instant) (s : State) : State → Prop
  | refl : Purges now s s
  | purge {s' : State} (h : Purges now s s') (key : String) : Purges now s (s'.purge key now)

namespace Purges

variable {now : Instant} {s s' s'' : State}

theorem trans (h : Purges now s s') (h' : Purges now s' s'') : Purges now s s'' := by
  induction h' with
  | refl => exact h
  | purge _ key ih => exact .purge ih key

/-- **Purges do not change what any key holds at that reading.** -/
theorem live (h : Purges now s s') : s'.live now = s.live now := by
  induction h with
  | refl => rfl
  | @purge s' _ key ih => exact (s'.live_purge key now).trans ih

end Purges

namespace State

variable (s : State) (max : Nat) (now : Instant)

/-! ## Batches -/

theorem applyAll_cons (c : Command) (rest : List Command)
    (h : ∀ reason, (s.apply c max now).1 ≠ .error (.crash reason)) :
    s.applyAll (c :: rest) max now =
      applyAll.cons (.ofAnswer (s.apply c max now).1)
        ((s.apply c max now).2.applyAll rest max now) := by
  rw [applyAll]
  generalize s.apply c max now = result at h
  obtain ⟨answer, after⟩ := result
  cases answer with
  | ok r => rfl
  | error e =>
    cases e with
    | crash reason => exact absurd rfl (h reason)
    | _ => rfl

theorem applyAll_cons_crash (c : Command) (rest : List Command) {reason : String}
    (h : (s.apply c max now).1 = .error (.crash reason)) :
    s.applyAll (c :: rest) max now = (.error (.crash reason), (s.apply c max now).2) := by
  rw [applyAll]
  generalize s.apply c max now = result at h
  obtain ⟨answer, after⟩ := result
  subst h
  rfl

/-- Only a crash keeps a batch from being answered. -/
theorem applyAll_ok (commands : List Command)
    (h : crashed (s.applyAll commands max now).1 = false) :
    ∃ replies, (s.applyAll commands max now).1 = .ok replies := by
  induction commands generalizing s with
  | nil => exact ⟨[], rfl⟩
  | cons c rest ih =>
    by_cases hcrash : ∃ reason, (s.apply c max now).1 = .error (.crash reason)
    · obtain ⟨reason, hreason⟩ := hcrash
      rw [applyAll_cons_crash s max now c rest hreason] at h
      cases h
    · rw [applyAll_cons s max now c rest fun reason h => hcrash ⟨reason, h⟩] at h ⊢
      have hrest := ih (s.apply c max now).2
      generalize (s.apply c max now).2.applyAll rest max now = tail at h hrest
      obtain ⟨answer, after⟩ := tail
      cases answer with
      | ok replies => exact ⟨_, rfl⟩
      | error e =>
        obtain ⟨replies, hreplies⟩ := hrest h
        cases hreplies

theorem applyAll.cons_snd (r : Reply) (result : Except Error (List Reply) × State) :
    (applyAll.cons r result).2 = result.2 := by
  obtain ⟨answer, s⟩ := result
  cases answer <;> rfl

/-! ## Transactions and clean-ups -/

theorem watch_purges (keys : List String) : Purges now s (s.watch keys now).2 := by
  induction keys generalizing s with
  | nil => exact .refl
  | cons key rest ih => exact (Purges.refl.purge key).trans (ih _)

theorem unchanged_purges (watched : List (String × Nat)) :
    Purges now s (s.unchanged watched now).2 := by
  induction watched generalizing s with
  | nil => exact .refl
  | cons w rest ih =>
    rw [unchanged]
    split
    · exact (Purges.refl.purge w.1).trans (ih _)
    · exact Purges.refl.purge w.1

theorem purgeAll_purges : Purges now s (s.purgeAll now) := by
  unfold purgeAll
  generalize s.entries.keys = keys
  induction keys generalizing s with
  | nil => exact .refl
  | cons key rest ih => exact (Purges.refl.purge key).trans (ih _)

/-- A commit is a check, and behind it the batch. -/
theorem exec_eq (watched : List (String × Nat)) (commands : List Command) :
    s.exec watched commands max now =
      if (s.unchanged watched now).1 then
        (((s.unchanged watched now).2.applyAll commands max now).1.map some,
          ((s.unchanged watched now).2.applyAll commands max now).2)
      else (.ok none, (s.unchanged watched now).2) := by
  unfold exec
  generalize s.unchanged watched now = result
  obtain ⟨passed, after⟩ := result
  cases passed with
  | false => rfl
  | true =>
    dsimp only
    generalize after.applyAll commands max now = result
    obtain ⟨answer, last⟩ := result
    cases answer <;> rfl

end State

end WatchedStore.Memory
