import WatchedStore.Proofs.Memory.Batch
import WatchedStore.Proofs.Memory.Request

/-!
# What happens to a store

A store meets deeds one after the other: calls, whoever makes them, and clean-ups. Each happens at one
reading of the clock and as a whole. `Reaches` is any number of deeds at readings that do not decrease;
`Reachable` is what deeds make of an empty store.

A deed takes the lock. One that crashes leaves it poisoned (`Store.poisoned_call`), and then nothing happens
any more (`Store.perform_of_poisoned`).
-/

namespace WatchedStore.Memory

/-- Something that happens to a store: somebody's call, or a clean-up. -/
inductive Deed where
  | call (c : Call Transaction)
  | cleanUp

namespace Store

/-- Lets a deed happen. A clean-up needs the lock, too. -/
def perform (now : Instant) (s : Store) : Deed → Store
  | .call c => (s.call now c).2
  | .cleanUp => if s.poisoned then s else (s.cleanUp now).2

variable (s : Store) (now : Instant)

/-! ## The lock -/

theorem locked_of_poisoned {s : Store} (h : s.poisoned = true)
    (f : State → Except Error α × State) : s.locked f = (.error lockPoisoned, s) := by
  simp only [locked, h, if_true]

theorem locked_of_sound {s : Store} (h : s.poisoned = false) (f : State → Except Error α × State) :
    s.locked f =
      ((f s.state).1, { s with state := (f s.state).2, poisoned := crashed (f s.state).1 }) := by
  simp only [locked, h, Bool.false_eq_true, if_false]
  rfl

theorem perform_of_poisoned {s : Store} (h : s.poisoned = true) (d : Deed) :
    s.perform now d = s := by
  cases d with
  | cleanUp => simp only [perform, h, if_true]
  | call c =>
    cases c with
    | request r =>
      rcases Rule.ruled_or_refused_or_batch now r with ⟨key, rule, hrule⟩ | hrefused | ⟨commands, rfl⟩
      · simp only [perform, call, request_eq_follow hrule, locked_of_poisoned h]
      · simp only [perform, call, hrefused]
      · exact congrArg Prod.snd (locked_of_poisoned h _)
    | discard tx => rfl
    | _ => exact congrArg Prod.snd (locked_of_poisoned h _)

theorem poisoned_locked {s : Store} (h : s.poisoned = false) (f : State → Except Error α × State) :
    (s.locked f).2.poisoned = crashed (s.locked f).1 := by
  rw [locked_of_sound h]

/-- A call poisons the lock exactly if it crashes. -/
theorem poisoned_call {s : Store} (h : s.poisoned = false) (c : Call Transaction) :
    (s.call now c).2.poisoned = crashed (s.call now c).1 := by
  cases c with
  | request r =>
    rcases Rule.ruled_or_refused_or_batch now r with ⟨key, rule, hrule⟩ | hrefused | ⟨commands, rfl⟩
    · simp only [call, request_eq_follow hrule]
      exact poisoned_locked h _
    · simp only [call, hrefused]
      exact h
    · exact poisoned_locked h _
  | discard tx => exact h
  | _ => exact poisoned_locked h _

end Store

/-! ## Many deeds -/

/-- Readings of the clock that do not decrease from `t` to `t'`, with something happening at each. -/
def Ordered {β : Type} (t : Instant) : List (Instant × β) → Instant → Prop
  | [], t' => t ≤ t'
  | (now, _) :: rest, t' => t ≤ now ∧ Ordered now rest t'

/-- Deeds happen to a store, and time passes. -/
inductive Reaches (t : Instant) (s : Store) : Instant → Store → Prop
  | refl : Reaches t s t s
  | wait {t' t'' : Instant} {s' : Store} (h : Reaches t s t' s') (later : t' ≤ t'') :
    Reaches t s t'' s'
  | deed {t' : Instant} {s' : Store} (h : Reaches t s t' s') (d : Deed) :
    Reaches t s t' (s'.perform t' d)

/-- **What deeds make of an empty store**, whatever its capacity. -/
def Reachable (t : Instant) (s : Store) : Prop := ∃ max, Reaches 0 { maxEntries := max } t s

namespace Reaches

variable {t t' t'' : Instant} {s s' s'' : Store}

theorem trans (h : Reaches t s t' s') (h' : Reaches t' s' t'' s'') : Reaches t s t'' s'' := by
  induction h' with
  | refl => exact h
  | wait _ later ih => exact .wait ih later
  | deed _ d ih => exact .deed ih d

theorem le (h : Reaches t s t' s') : t ≤ t' := by
  induction h with
  | refl => exact Nat.le_refl _
  | wait _ later ih => exact Nat.le_trans ih later
  | deed _ _ ih => exact ih

/-- A store that is not poisoned never was. -/
theorem sound (h : Reaches t s t' s') (hs : s'.poisoned = false) : s.poisoned = false := by
  induction h with
  | refl => exact hs
  | wait _ _ ih => exact ih hs
  | @deed t' s' _ d ih =>
    cases hp : s'.poisoned with
    | false => exact ih hp
    | true =>
      rw [Store.perform_of_poisoned _ hp, hp] at hs
      cases hs

end Reaches

end WatchedStore.Memory
