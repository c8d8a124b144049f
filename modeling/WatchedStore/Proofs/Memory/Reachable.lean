import WatchedStore.Proofs.Memory.Version

/-!
# Reachable stores

**The step law** (`Store.perform_advances`): a deed moves well-formed contents on, changing the keys that its
answer names. **The run law** (`Reaches.spared_or_newer`): over any number of deeds, a key has kept its entry
or has a version newer than all that the start knew. A crash is the exception to the naming only: the answer
of a crashed batch names nothing.

Both need the contents to be well formed. What a deed finds is what the deeds before it have left, so this is
carried along a run; and with it comes what a reachable store is and stays (`reachable_wellFormed`).
-/

namespace WatchedStore.Memory

namespace Store

variable (s : Store) (now : Instant)

/-! ## One deed -/

/-- What holds of an operation on the contents holds of it under the lock. -/
theorem locked_advances {s : Store} {now : Instant} {f : State → Except Error α × State}
    (changes : Except Error α → String → Prop)
    (h : ∃ changed, Advances now changed s.state (f s.state).2 ∧
      (crashed (f s.state).1 = false → ∀ key, changed key ↔ changes (f s.state).1 key)) :
    ∃ changed, Advances now changed s.state (s.locked f).2.state ∧
      ((s.locked f).2.poisoned = false → ∀ key, changed key ↔ changes (s.locked f).1 key) := by
  cases hp : s.poisoned with
  | true =>
    rw [locked_of_poisoned hp]
    exact ⟨_, Advances.refl now s.state, fun hsound => by simp [hp] at hsound⟩
  | false =>
    rw [locked_of_sound hp]
    exact h

theorem locked_follow_advances {rule : Rule α} {shown : Except Error α → Prop}
    (h : Rule.Shows rule shown) {s : Store} (hs : s.WellFormed) (key : String) (now : Instant) :
    let out := s.locked fun state => state.follow rule key s.maxEntries now
    ∃ changed, Advances now changed s.state out.2.state ∧
      (out.2.poisoned = false → ∀ k, changed k ↔ k = key ∧ shown out.1) :=
  locked_advances (fun a k => k = key ∧ shown a)
    ⟨_, s.state.follow_advances key s.maxEntries now (fun _ => hs.filled_live) h, fun _ _ => Iff.rfl⟩

theorem request_advances (hs : s.WellFormed) (r : Request) :
    ∃ changed, Advances now changed s.state (s.request now r).2.state ∧
      ((s.request now r).2.poisoned = false →
        ∀ key, changed key ↔ r.Changes (s.request now r).1 key) := by
  rcases Rule.ruled_or_refused_or_batch now r with ⟨key, rule, hrule⟩ | hrefused | ⟨commands, rfl⟩
  · obtain ⟨shown, hshows, hchanges⟩ := hrule.shows
    rw [request_eq_follow hrule]
    obtain ⟨changed, hadv, hiff⟩ := locked_follow_advances hshows hs key now
    exact ⟨changed, hadv, fun hsound k => (hiff hsound k).trans (hchanges _ k).symm⟩
  · -- refused before the lock is taken
    rw [hrefused]
    exact ⟨_, Advances.refl now s.state, fun _ key => ⟨False.elim, not_changes_error r _ key⟩⟩
  · refine locked_advances (fun a key => Request.Changes (.batch commands) a key) ?_
    obtain ⟨changed, hadv, hiff⟩ := s.state.applyAll_advances s.maxEntries now hs commands
    refine ⟨changed, hadv, fun hsound key => ?_⟩
    obtain ⟨replies, hok⟩ := s.state.applyAll_ok s.maxEntries now commands hsound
    rw [hiff replies hok, hok]
    constructor
    · intro h
      exact ⟨replies, rfl, h⟩
    · rintro ⟨_, heq, h⟩
      cases heq
      exact h

/-- **A call moves well-formed contents on**, changing what its answer names. -/
theorem call_advances (hs : s.WellFormed) (c : Call Transaction) :
    ∃ changed, Advances now changed s.state (s.call now c).2.state ∧
      ((s.call now c).2.poisoned = false →
        ∀ key, changed key ↔ c.Changes (s.call now c).1 key) := by
  cases c with
  | request r => exact s.request_advances now hs r
  | watch keys =>
    exact locked_advances _ ⟨_, (s.state.watch_purges now keys).advances, fun _ _ => Iff.rfl⟩
  | txGet tx key =>
    rw [txGet_eq_follow]
    obtain ⟨changed, hadv, hiff⟩ := locked_follow_advances Rule.get_shows hs key now
    exact ⟨changed, hadv, fun hsound k => (hiff hsound k).trans ⟨And.right, False.elim⟩⟩
  | exec tx commands =>
    exact locked_advances _ (s.state.exec_advances s.maxEntries now hs tx.watched commands)
  | discard tx => exact ⟨_, Advances.refl now s.state, fun _ _ => Iff.rfl⟩

/-- Whether a deed changed a key, by its answer. -/
def Changes (key : String) : Deed → Prop
  | .call c => c.Changes (s.call now c).1 key
  | .cleanUp => False

/-- **A deed moves well-formed contents on**, changing what its answer names. -/
theorem perform_advances (hs : s.WellFormed) (d : Deed) :
    ∃ changed, Advances now changed s.state (s.perform now d).state ∧
      ((s.perform now d).poisoned = false → ∀ key, changed key ↔ s.Changes now key d) := by
  cases d with
  | call c => exact s.call_advances now hs c
  | cleanUp =>
    refine ⟨fun _ => False, ?_, fun _ _ => Iff.rfl⟩
    cases hp : s.poisoned with
    | true =>
      rw [perform_of_poisoned now hp]
      exact Advances.refl now s.state
    | false =>
      simp only [perform, hp, Bool.false_eq_true, if_false]
      exact (s.state.purgeAll_purges now).advances

end Store

/-! ## Many deeds -/

/-- **Over any number of deeds a key has kept what it holds, or has a version newer than all that the
start knew.** -/
theorem Reaches.spared_or_newer {t t' : Instant} {s s' : Store} (h : Reaches t s t' s') (hs : s.WellFormed)
    (key : String) :
    s.state.clock ≤ s'.state.clock ∧
      (Spared key s.state s'.state ∨ s.state.clock < s'.state.version key) := by
  induction h with
  | refl => exact ⟨Nat.le_refl _, .inl (.refl _ _)⟩
  | wait _ _ ih => exact ih
  | @deed t' s' hbefore d ih =>
    obtain ⟨hle, hkey⟩ := ih
    obtain ⟨_, hadv, -⟩ := s'.perform_advances t' (hbefore.wellFormed hs) d
    refine ⟨Nat.le_trans hle hadv.clock_le, ?_⟩
    rcases hadv.spared_or_touched key with hs | ⟨ht, -⟩
    · exact hkey.imp (fun h => h.trans hs) fun hnew => hs.version ▸ hnew
    · exact .inr (Nat.lt_of_le_of_lt hle ht.newer)

/-- **Every reachable store is well formed, and its versions record every change.** In a store that deeds
have made of an empty one, at any reading, entries, versions and clock fit together. Whatever happens next,
and whatever the clock reads then, no version decreases, and the version of a key increases if anything
else is stored under it afterwards: nothing, something, another value, other members, another deadline. -/
theorem reachable_wellFormed {max : Nat} {t : Instant} {s : Store}
    (hs : Reaches 0 { maxEntries := max } t s) :
    s.state.WellFormed max ∧ ∀ (now : Instant) (d : Deed) (key : String),
      s.state.version key ≤ (s.perform now d).state.version key ∧
        ((s.perform now d).state.entries[key]? ≠ s.state.entries[key]? →
          s.state.version key < (s.perform now d).state.version key) := by
  have hwf : s.WellFormed := Reachable.wellFormed ⟨max, hs⟩
  have hmax : s.maxEntries = max := hs.maxEntries
  refine ⟨hmax ▸ hwf, fun now d key => ?_⟩
  obtain ⟨changed, hadv, -⟩ := s.perform_advances now hwf d
  rcases hadv.spared_or_touched key with hspared | ⟨htouched, -⟩
  · exact ⟨Nat.le_of_eq hspared.version.symm, fun hne => absurd hspared.entry hne⟩
  · -- a touched key has a version ahead of the clock, and the old one was behind it
    have hlt := Nat.lt_of_le_of_lt (State.WellFormed.version_le hwf key) htouched.newer
    exact ⟨Nat.le_of_lt hlt, fun _ => hlt⟩

/-- A clean-up removes a key whose time is over, and nothing else has happened to the key since. -/
theorem reachable_wellFormed_cleaned :
    let s := (({ maxEntries := 2 } : Store).perform 1
      (.call (.request (.set "a" [0x31] (some (.ofMillis 1)))))).perform 2
        (.call (.request (.setAdd "b" [0x32])))
    s.state.WellFormed 2 ∧ s.state.version "a" < (s.perform 2000000 .cleanUp).state.version "a" := by
  intro s
  have hreach : Reaches 0 { maxEntries := 2 } 2 s :=
    (((Reaches.refl.wait (by decide)).deed _).wait (by decide)).deed _
  obtain ⟨hwf, hversions⟩ := reachable_wellFormed hreach
  refine ⟨hwf, (hversions 2000000 .cleanUp "a").2 fun h => ?_⟩
  have hbefore : s.state.entries["a"]? = some ⟨.bytes [0x31], some 1000001⟩ := rfl
  have hafter : (s.perform 2000000 .cleanUp).state.entries["a"]? = none := rfl
  rw [hbefore, hafter] at h
  cases h

end WatchedStore.Memory
