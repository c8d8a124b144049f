import WatchedStore.Proofs.Memory.Reachable

/-!
# Watching keys

A transaction carries the versions that its keys had when it was opened (`Watches`). Its commit passes
exactly if every watched key has been spared since and is not overdue (`Watches.passes_iff`): versions
never go back and are never given out twice, so an old version is evidence that nothing happened. A commit
that passes has left the contents as they were before it looks at its queue.
-/

namespace WatchedStore.Memory

/-- **A transaction that was opened on these keys and left this store behind.** -/
structure Watches (tx : Transaction) (keys : List String) (t : Instant) (s : Store) : Prop where
  versions : tx.watched = keys.map fun key => (key, s.state.version key)
  fresh : ∀ key ∈ keys, ¬ s.state.Overdue key t
  wellFormed : s.WellFormed
  sound : s.poisoned = false

/-- Whether a commit finds no watched key changed. -/
def Passes (tx : Transaction) (t : Instant) (s : Store) : Prop :=
  (s.state.unchanged tx.watched t).1 = true

variable {tx : Transaction} {keys : List String} {t t' : Instant} {s s' : Store}

theorem call_watch_of_sound (h : s.poisoned = false) (keys : List String) (t : Instant) :
    s.call t (.watch keys) =
      (.ok ⟨(s.state.watch keys t).1⟩, { s with state := (s.state.watch keys t).2 }) := by
  obtain ⟨state, maxEntries, poisoned⟩ := s
  cases h
  rfl

theorem call_exec_of_sound (h : s.poisoned = false) (tx : Transaction) (commands : List Command)
    (t : Instant) :
    s.call t (.exec tx commands) =
      ((s.state.exec tx.watched commands s.maxEntries t).1,
        { s with
          state := (s.state.exec tx.watched commands s.maxEntries t).2
          poisoned := crashed (s.state.exec tx.watched commands s.maxEntries t).1 }) :=
  Store.locked_of_sound h (·.exec tx.watched commands s.maxEntries t)

theorem call_watch_of_poisoned (h : s.poisoned = true) (keys : List String) (t : Instant) :
    s.call t (.watch keys) = (.error Store.lockPoisoned, s) :=
  Store.locked_of_poisoned h fun state =>
    (.ok (⟨(state.watch keys t).1⟩ : Transaction), (state.watch keys t).2)

theorem call_exec_of_poisoned (h : s.poisoned = true) (tx : Transaction) (commands : List Command)
    (t : Instant) : s.call t (.exec tx commands) = (.error Store.lockPoisoned, s) :=
  Store.locked_of_poisoned h (·.exec tx.watched commands s.maxEntries t)

theorem watches_of_call (hs : s.WellFormed) (h : (s.call t (.watch keys)).1 = .ok tx) :
    Watches tx keys t (s.call t (.watch keys)).2 := by
  cases hp : s.poisoned with
  | true =>
    rw [call_watch_of_poisoned hp] at h
    cases h
  | false =>
    rw [call_watch_of_sound hp] at h ⊢
    cases h
    obtain ⟨hversions, hfresh⟩ := s.state.watch_versions t keys
    exact ⟨hversions, hfresh, State.WellFormed.purges hs (s.state.watch_purges t keys), hp⟩

theorem live_call_watch (s : Store) (keys : List String) (t : Instant) :
    (s.call t (.watch keys)).2.state.live t = s.state.live t := by
  cases hp : s.poisoned with
  | true => rw [call_watch_of_poisoned hp]
  | false =>
    rw [call_watch_of_sound hp]
    exact (s.state.watch_purges t keys).live

/-- A watched key is overdue later on exactly if what it held when the transaction was opened is. -/
theorem overdue_call_watch (h : Watches tx keys t (s.call t (.watch keys)).2) {key : String}
    (hkey : key ∈ keys) (t' : Instant) :
    (s.call t (.watch keys)).2.state.Overdue key t' ↔
      ∃ e, s.state.live t key = some e ∧ e.isExpired t' = true := by
  rw [← live_call_watch, State.live_of_not_overdue (h.fresh key hkey)]
  rfl

/-- **A commit passes exactly if every watched key was spared and is not overdue.** -/
theorem Watches.passes_iff (h : Watches tx keys t s) (hr : Reaches t s t' s') :
    Passes tx t' s' ↔ ∀ key ∈ keys, Spared key s.state s'.state ∧ ¬ s'.state.Overdue key t' := by
  have hold : ∀ w ∈ tx.watched, w.2 ≤ s'.state.clock := by
    intro w hw
    rw [h.versions] at hw
    obtain ⟨key, -, rfl⟩ := List.mem_map.mp hw
    exact Nat.le_trans (h.wellFormed.version_le key) (hr.spared_or_newer h.wellFormed key).1
  rw [Passes, (State.unchanged_iff hold).1, h.versions, List.forall_mem_map]
  constructor
  · intro hall key hkey
    obtain ⟨hnot, hversion⟩ := hall key hkey
    refine ⟨(hr.spared_or_newer h.wellFormed key).2.resolve_right fun hnew => ?_, hnot⟩
    -- a newer version is not the watched one, which is behind the clock of its time
    have hle := h.wellFormed.version_le key
    rw [hversion] at hnew
    exact absurd hnew (Nat.not_lt.mpr hle)
  · intro hall key hkey
    exact ⟨(hall key hkey).2, (hall key hkey).1.version⟩

/-- A commit that passes has left the contents as they were. -/
theorem Watches.unchanged_of_passes (h : Watches tx keys t s) (hr : Reaches t s t' s')
    (hpass : Passes tx t' s') : (s'.state.unchanged tx.watched t').2 = s'.state := by
  refine (State.unchanged_iff fun w hw => ?_).2 hpass
  rw [h.versions] at hw
  obtain ⟨key, -, rfl⟩ := List.mem_map.mp hw
  exact Nat.le_trans (h.wellFormed.version_le key) (hr.spared_or_newer h.wellFormed key).1

/-- A commit is refused exactly if the lock is not poisoned and the check does not pass. -/
theorem call_exec_eq_none_iff (s : Store) (tx : Transaction) (commands : List Command) (t : Instant) :
    (s.call t (.exec tx commands)).1 = .ok none ↔ s.poisoned = false ∧ ¬ Passes tx t s := by
  cases hp : s.poisoned with
  | true =>
    rw [call_exec_of_poisoned hp]
    exact ⟨fun h => (by cases h), fun h => (by cases h.1)⟩
  | false =>
    rw [call_exec_of_sound hp, State.exec_eq, Passes]
    split
    · rename_i hpass
      refine ⟨fun h => ?_, fun h => absurd hpass h.2⟩
      cases hr : ((s.state.unchanged tx.watched t).2.applyAll commands s.maxEntries t).1 <;>
        rw [hr] at h <;> cases h
    · rename_i hpass
      exact ⟨fun _ => ⟨rfl, hpass⟩, fun _ => rfl⟩

end WatchedStore.Memory
