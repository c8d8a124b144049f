import WatchedStore.Proofs.Memory.Watch

/-!
# What keys hold

Entries whose time is over lie around until somebody touches them. To a client they are gone, so what an
operation does is said of `State.live`, with the entries left out whose time is over.

**The laws**: an operation answers by what its key holds (`follow_fst`), and leaves everything as it is
if it keeps its key (`live_follow_keep`) or changes what the key holds and no more (`live_follow_put`).
Reads, watches, refused commits and transactions that are given up change what no key holds.
-/

namespace WatchedStore.Memory

namespace State

variable {s : State} {key : String} {now : Instant}

theorem not_expired_of_live {e : Entry} (h : s.live now key = some e) : e.isExpired now = false := by
  have hnot := (Option.filter_eq_some_iff.mp h).2
  simpa using hnot

theorem entries_of_live {e : Entry} (h : s.live now key = some e) : s.entries[key]? = some e :=
  (Option.filter_eq_some_iff.mp h).1

theorem live_of_forever {value : Value} (h : s.entries[key]? = some ⟨value, none⟩) (now : Instant) :
    s.live now key = some ⟨value, none⟩ := by
  rw [live, h]
  rfl

theorem live_put (s : State) (key : String) {e : Entry} (h : e.isExpired now = false) :
    (s.put key e).live now = fun k => if k = key then some e else s.live now k := by
  funext k
  unfold live
  rw [entries_put]
  by_cases hk : k = key
  · rw [if_pos hk, if_pos hk.symm, Option.filter_some, h]
    rfl
  · rw [if_neg hk, if_neg (Ne.symm hk)]

/-- An operation answers by what its key holds, and by whether there is room. -/
theorem follow_fst (rule : Rule α) (key : String) (max : Nat) (now : Instant) (s : State) :
    (s.follow rule key max now).1 = (rule (s.live now key) ((s.purge key now).isFull key max)).1 := by
  rw [← entries_purge_self]
  rfl

theorem isFull_of_live {e : Entry} (max : Nat) (h : s.live now key = some e) :
    (s.purge key now).isFull key max = false := by
  have hin : (s.purge key now).entries.contains key = true := by
    rw [Std.ExtTreeMap.contains_eq_isSome_getElem?, entries_purge_self, h]
    rfl
  simp only [isFull, hin, Bool.not_true, Bool.and_false]

theorem live_follow_keep (rule : Rule α) (max : Nat)
    (h : (rule (s.live now key) ((s.purge key now).isFull key max)).2 = .keep) :
    (s.follow rule key max now).2.live now = s.live now := by
  rw [← entries_purge_self] at h
  unfold follow
  dsimp only
  rw [h]
  exact s.live_purge key now

theorem live_follow_put {e : Entry} (rule : Rule α) (max : Nat)
    (h : (rule (s.live now key) ((s.purge key now).isFull key max)).2 = .put e)
    (hnot : e.isExpired now = false) :
    (s.follow rule key max now).2.live now = fun k => if k = key then some e else s.live now k := by
  rw [← entries_purge_self] at h
  unfold follow
  dsimp only
  rw [h, update, live_put _ key hnot, live_purge]

/-- A read answers by what its key holds, and does no more than purge it. -/
theorem read_eq (s : State) (key : String) (now : Instant) :
    s.read key now = ((Rule.get (s.live now key) false).1, s.purge key now) := by
  rw [read_eq_get, get_eq_follow s key 0, ← entries_purge_self]
  unfold follow
  dsimp only
  cases (s.purge key now).entries[key]? with
  | none => rfl
  | some e =>
    obtain ⟨value, until_⟩ := e
    cases value <;> rfl

/-- A watch of keys that are not overdue reads their versions, and does nothing else. -/
theorem watch_of_not_overdue {keys : List String} (h : ∀ key ∈ keys, ¬ s.Overdue key now) :
    s.watch keys now = (keys.map fun key => (key, s.version key), s) := by
  induction keys with
  | nil => rfl
  | cons key rest ih =>
    rw [watch]
    simp only [purge_of_not_overdue (h key List.mem_cons_self),
      ih fun k hk => h k (List.mem_cons_of_mem _ hk), List.map_cons]

end State

variable {tx : Transaction} {key : String} {t t' : Instant} {s s' : Store}

/-- Under a poisoned lock a direct operation fails, and nothing happens. -/
theorem request_of_poisoned {r : Request} {rule : Rule r.Answer} (h : s.poisoned = true)
    (hrule : Rule.Decides t r key rule) : s.request t r = (.error Store.lockPoisoned, s) := by
  rw [Store.request_eq_follow hrule, Store.locked_of_poisoned h]

/-- **A direct operation under a sound lock** answers by its rule, and by what its key holds. -/
theorem request_fst_of_sound {r : Request} {rule : Rule r.Answer} (h : s.poisoned = false)
    (hrule : Rule.Decides t r key rule) :
    (s.request t r).1 =
      (rule (s.state.live t key) ((s.state.purge key t).isFull key s.maxEntries)).1 := by
  rw [Store.request_eq_follow hrule, Store.locked_of_sound h]
  exact s.state.follow_fst rule key s.maxEntries t

theorem call_txGet_of_poisoned (h : s.poisoned = true) (tx : Transaction) (key : String)
    (t : Instant) : s.call t (.txGet tx key) = (.error Store.lockPoisoned, s) :=
  Store.locked_of_poisoned h (·.read key t)

/-- A read under a sound lock answers by what its key holds, and does no more than purge it. -/
theorem call_txGet_of_sound (h : s.poisoned = false) (tx : Transaction) (key : String) (t : Instant) :
    s.call t (.txGet tx key) =
      ((Rule.get (s.state.live t key) false).1, { s with state := s.state.purge key t }) := by
  refine (Store.locked_of_sound h (·.read key t)).trans ?_
  obtain ⟨state, maxEntries, poisoned⟩ := s
  cases h
  simp only [State.read_eq]
  cases state.live t key with
  | none => rfl
  | some e =>
    obtain ⟨value, until_⟩ := e
    cases value <;> rfl

theorem live_call_txGet (s : Store) (tx : Transaction) (key : String) (t : Instant) :
    (s.call t (.txGet tx key)).2.state.live t = s.state.live t := by
  cases hp : s.poisoned with
  | true => rw [call_txGet_of_poisoned hp]
  | false =>
    rw [call_txGet_of_sound hp]
    exact s.state.live_purge key t

theorem live_call_exec (s : Store) (tx : Transaction) (commands : List Command) (t : Instant)
    (h : s.poisoned = true ∨ ¬ Passes tx t s) :
    (s.call t (.exec tx commands)).2.state.live t = s.state.live t := by
  cases hp : s.poisoned with
  | true => rw [call_exec_of_poisoned hp]
  | false =>
    have hnot : ¬ (s.state.unchanged tx.watched t).1 = true := by
      rcases h with h | h
      · rw [hp] at h
        cases h
      · exact h
    rw [call_exec_of_sound hp, State.exec_eq, if_neg hnot]
    exact (s.state.unchanged_purges t tx.watched).live

/-- **What a watched key held in between it holds at a commit that passes.** -/
theorem Watches.live_eq_of_passes {keys : List String} {t₁ t₂ : Instant} {s₁ s₂ : Store}
    (h : Watches tx keys t s) (hr₁ : Reaches t s t₁ s₁) (hr₂ : Reaches t₁ s₁ t₂ s₂)
    (hpass : Passes tx t₂ s₂) (hkey : key ∈ keys) :
    s₁.state.live t₁ key = s₂.state.live t₂ key := by
  obtain ⟨hspared, hnot⟩ := (h.passes_iff (hr₁.trans hr₂)).mp hpass key hkey
  have hlate : Spared key s₁.state s₂.state := by
    refine (hr₂.spared_or_newer (hr₁.wellFormed h.wellFormed) key).2.resolve_right fun hnew => ?_
    -- the version at the commit is that of the opening, so it is behind every clock since
    rw [hspared.version] at hnew
    have hle := Nat.le_trans (h.wellFormed.version_le key) (hr₁.spared_or_newer h.wellFormed key).1
    exact absurd hnew (Nat.not_lt.mpr hle)
  have hearly : ¬ s₁.state.Overdue key t₁ := fun hover =>
    hnot ((hlate.overdue_iff t₂).mpr (hover.mono hr₂.le))
  rw [State.live_of_not_overdue hearly, State.live_of_not_overdue hnot, hlate.entry]

/-- **A read in between answers what it would answer at a commit that passes**, where it would leave the
store as it is. -/
theorem Watches.call_txGet_of_passes {keys : List String} {t₁ t₂ : Instant} {s₁ s₂ : Store}
    (h : Watches tx keys t s) (hr₁ : Reaches t s t₁ s₁) (hr₂ : Reaches t₁ s₁ t₂ s₂)
    (hsound : s₂.poisoned = false) (hpass : Passes tx t₂ s₂) (hkey : key ∈ keys) :
    s₂.call t₂ (.txGet tx key) = ((s₁.call t₁ (.txGet tx key)).1, s₂) := by
  have hnot := ((h.passes_iff (hr₁.trans hr₂)).mp hpass key hkey).2
  rw [call_txGet_of_sound hsound, call_txGet_of_sound (hr₂.sound hsound),
    h.live_eq_of_passes hr₁ hr₂ hpass hkey, State.purge_of_not_overdue hnot]
  rfl

/-- Opened again at a commit that passes, a transaction would be the same one. -/
theorem Watches.call_watch_of_passes {keys : List String} {t₁ : Instant} {s₁ : Store}
    (h : Watches tx keys t s) (hr : Reaches t s t₁ s₁) (hsound : s₁.poisoned = false)
    (hpass : Passes tx t₁ s₁) : s₁.call t₁ (.watch keys) = (.ok tx, s₁) := by
  have hkeys := (h.passes_iff hr).mp hpass
  have hversions : keys.map (fun key => (key, s₁.state.version key)) = tx.watched := by
    rw [h.versions]
    exact List.map_congr_left fun key hkey => by rw [(hkeys key hkey).1.version]
  rw [call_watch_of_sound hsound, State.watch_of_not_overdue fun key hkey => (hkeys key hkey).2,
    hversions]

end WatchedStore.Memory
