import WatchedStore.Program
import WatchedStore.Proofs.Memory.Effect

/-!
# A client alone with a store

A client that has a store to itself makes one call after the other. In between time passes, and the store
may be cleaned up. What happens before each call to come is part of the state (`Solo.ahead`), so a run is
computed from it, and every timing of the calls is one such state.

**The law** (`Solo.next_keeps`): whatever is kept while time passes and by clean-ups stands at the next call
as it stood before.
-/

namespace WatchedStore.Memory

/-- What happens while a client makes no call. -/
inductive Meanwhile where
  | pass (nanoseconds : Nat)
  | cleanUp

/-- **A store that one client has to itself**, at a reading of the clock, and what happens before each of
the calls to come; nothing happens before those that are not spoken of. -/
structure Solo where
  store : Store
  now : Instant := 0
  ahead : List (List Meanwhile) := []

namespace Solo

/-- Lets something happen. -/
def elapse (solo : Solo) : Meanwhile → Solo
  | .pass nanoseconds => { solo with now := solo.now + nanoseconds }
  | .cleanUp => { solo with store := solo.store.perform solo.now .cleanUp }

/-- What the next call meets. -/
def next (solo : Solo) : Solo :=
  match solo.ahead with
  | [] => solo
  | first :: rest => { first.foldl elapse solo with ahead := rest }

/-- The next call. -/
def call (c : Call Transaction) (solo : Solo) : Except Error c.Answer × Solo :=
  ((solo.next.store.call solo.next.now c).1,
    { solo.next with store := (solo.next.store.call solo.next.now c).2 })

/-- How programs run on a store of their own. To pause is to let nothing happen but what is ahead. -/
def backend : Backend Solo Transaction where
  answer := call
  wait := fun _ solo => solo
  note := fun _ solo => solo

theorem run_call (c : Call Transaction) (next : Except Error c.Answer → Program Transaction α)
    (solo : Solo) :
    Program.run backend (.call c next) solo = (next (solo.call c).1).run backend (solo.call c).2 := rfl

variable {I : Instant → Store → Prop} {solo : Solo}

/-- **What time and clean-ups keep stands at the next call.** -/
theorem next_keeps (hwait : ∀ {now later s}, I now s → now ≤ later → I later s)
    (hcleanUp : ∀ {now s}, I now s → I now (s.perform now .cleanUp)) (h : I solo.now solo.store) :
    I solo.next.now solo.next.store := by
  unfold next
  cases solo.ahead with
  | nil => exact h
  | cons first rest =>
    show I (first.foldl elapse solo).now (first.foldl elapse solo).store
    clear rest
    induction first generalizing solo with
    | nil => exact h
    | cons m rest ih =>
      refine ih ?_
      cases m with
      | pass nanoseconds => exact hwait h (Nat.le_add_right _ _)
      | cleanUp => exact hcleanUp h

theorem next_le (solo : Solo) : solo.now ≤ solo.next.now :=
  next_keeps (I := fun now _ => solo.now ≤ now) Nat.le_trans id (Nat.le_refl _)

theorem poisoned_next (solo : Solo) : solo.next.store.poisoned = solo.store.poisoned :=
  next_keeps (I := fun _ s => s.poisoned = solo.store.poisoned) (fun h _ => h)
    (poisoned_cleanUp _ _).trans rfl

theorem maxEntries_next (solo : Solo) : solo.next.store.maxEntries = solo.store.maxEntries :=
  next_keeps (I := fun _ s => s.maxEntries = solo.store.maxEntries) (fun h _ => h)
    (Store.maxEntries_perform _ _ _).trans rfl

/-- **Up to the next call entries disappear, and that is all.** -/
theorem live_next (solo : Solo) (key : String) :
    solo.next.store.state.live solo.next.now key =
      (solo.store.state.live solo.now key).filter (!·.isExpired solo.next.now) := by
  refine next_keeps (I := fun now s =>
    s.state.live now key = (solo.store.state.live solo.now key).filter (!·.isExpired now))
    (fun {now later s} h hle => ?_) (fun {now s} h => ?_) (State.live_later _ (Nat.le_refl _) key)
  · rw [s.state.live_later hle, h, ← TimedMap.filter_of_later fun _ => Entry.not_isExpired_of_later hle]
  · rw [live_cleanUp, h]

/-- Whatever a program does, the store's capacity stays. -/
theorem maxEntries_run (p : Program Transaction α) (solo : Solo) :
    (p.run backend solo).2.store.maxEntries = solo.store.maxEntries := by
  induction p generalizing solo with
  | done => rfl
  | call c next ih =>
    have hcall : (solo.call c).2.store.maxEntries = solo.next.store.maxEntries :=
      Store.maxEntries_perform solo.next.store solo.next.now (.call c)
    exact (ih _ (solo.call c).2).trans (hcall.trans (maxEntries_next solo))
  | report _ _ ih => exact ih solo
  | pause _ _ ih => exact ih solo

end Solo

end WatchedStore.Memory
