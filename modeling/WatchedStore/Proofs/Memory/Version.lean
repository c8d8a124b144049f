import WatchedStore.Proofs.Memory.WellFormed

/-!
# What versions record

Contents move on by touching keys. A touched key has a version that is newer than anything before; any
other key has kept both version and entry (`Spared`). `Advances` says this of all keys at once and names
the reason for every touch: the key was changed, or its time was over. It is reflexive and transitive.

**The step law** for operations (`State.follow_advances`) rests on no set being empty: an empty set is the one
thing that is erased without a touch, and a key whose entry is gone under an old version is neither spared
nor touched. So batches and commits are told of well-formed contents, whose sets stay filled from one
command to the next.

From a version that has not changed it follows that nothing has happened (`State.unchanged_iff`), as no version
runs ahead of the clock.
-/

namespace WatchedStore.Memory

/-- A key that has kept its version and what it holds. -/
structure Spared (key : String) (s s' : State) : Prop where
  version : s'.version key = s.version key
  entry : s'.entries[key]? = s.entries[key]?

/-- A key with a version newer than anything before. -/
structure Touched (key : String) (s s' : State) : Prop where
  newer : s.clock < s'.version key
  dated : s'.version key ≤ s'.clock

/-- **How contents move on at one reading of the clock**, when the keys in `changed` are changed. -/
structure Advances (now : Instant) (changed : String → Prop) (s s' : State) : Prop where
  clock_le : s.clock ≤ s'.clock
  spared_or_touched : ∀ key,
    Spared key s s' ∨ (Touched key s s' ∧ (changed key ∨ s.Overdue key now))
  touched_of_changed : ∀ key, changed key → Touched key s s'

theorem Spared.refl (key : String) (s : State) : Spared key s s := ⟨rfl, rfl⟩

theorem Spared.trans {key : String} {s s' s'' : State} (h : Spared key s s') (h' : Spared key s' s'') :
    Spared key s s'' :=
  ⟨h'.version.trans h.version, h'.entry.trans h.entry⟩

theorem Spared.overdue_iff {key : String} {s s' : State} (h : Spared key s s') (now : Instant) :
    s'.Overdue key now ↔ s.Overdue key now := by
  unfold State.Overdue
  rw [h.entry]

namespace Advances

variable {now : Instant} {changed changed' : String → Prop} {s s' s'' : State}

theorem refl (now : Instant) (s : State) : Advances now (fun _ => False) s s :=
  ⟨Nat.le_refl _, fun key => .inl (.refl key s), fun _ h => h.elim⟩

theorem congr (h : Advances now changed s s') (hiff : ∀ key, changed key ↔ changed' key) :
    Advances now changed' s s' where
  clock_le := h.clock_le
  spared_or_touched key := (h.spared_or_touched key).imp_right fun ⟨ht, hwhy⟩ =>
    ⟨ht, hwhy.imp_left (hiff key).mp⟩
  touched_of_changed key hc := h.touched_of_changed key ((hiff key).mpr hc)

/-- Moving on twice at one reading is moving on once: what was touched stays newer than the start. -/
theorem trans (h : Advances now changed s s') (h' : Advances now changed' s' s'') :
    Advances now (fun key => changed key ∨ changed' key) s s'' := by
  -- touched early: spared or touched again, the version stays ahead of where the clock was
  have hkeep : ∀ key, Touched key s s' → Touched key s s'' := by
    intro key ht
    rcases h'.spared_or_touched key with hs | ⟨ht', -⟩
    · exact ⟨hs.version ▸ ht.newer, hs.version ▸ Nat.le_trans ht.dated h'.clock_le⟩
    · exact ⟨Nat.lt_of_le_of_lt h.clock_le ht'.newer, ht'.dated⟩
  have hlate : ∀ key, Touched key s' s'' → Touched key s s'' := fun key ht =>
    ⟨Nat.lt_of_le_of_lt h.clock_le ht.newer, ht.dated⟩
  refine ⟨Nat.le_trans h.clock_le h'.clock_le, fun key => ?_, fun key hc => ?_⟩
  · rcases h.spared_or_touched key with hs | ⟨ht, hwhy⟩
    · rcases h'.spared_or_touched key with hs' | ⟨ht', hwhy'⟩
      · exact .inl (hs.trans hs')
      · exact .inr ⟨hlate key ht', hwhy'.imp .inr (hs.overdue_iff now).mp⟩
    · exact .inr ⟨hkeep key ht, hwhy.imp_left .inl⟩
  · rcases hc with hc | hc
    · exact hkeep key (h.touched_of_changed key hc)
    · exact hlate key (h'.touched_of_changed key hc)

theorem spared (h : Advances now changed s s') {key : String} (hc : ¬ changed key)
    (ho : ¬ s.Overdue key now) : Spared key s s' :=
  (h.spared_or_touched key).resolve_right fun ⟨_, hwhy⟩ => hwhy.elim hc ho

end Advances

namespace State

variable (s : State) (key : String) (max : Nat) (now : Instant)

/-! ## Operations -/

theorem update_advances {u : Update} (hu : u ≠ .erase) :
    Advances now (fun k => k = key ∧ u.Touches) s (s.update key u) := by
  cases u with
  | keep => exact (Advances.refl now s).congr fun k => by simp
  | erase => exact absurd rfl hu
  | put e =>
    refine ⟨Nat.le_succ _, fun k => ?_, fun k hk => ?_⟩
    · by_cases h : key = k
      · exact .inr ⟨⟨by simp [update, h], by simp [update, h]⟩, .inl ⟨h.symm, by simp⟩⟩
      · exact .inl ⟨by simp [update, h], by simp [update, h]⟩
    · exact ⟨by simp [update, hk.1], by simp [update, hk.1]⟩
  | drop =>
    refine ⟨Nat.le_succ _, fun k => ?_, fun k hk => ?_⟩
    · by_cases h : key = k
      · exact .inr ⟨⟨by simp [update, h], by simp [update, h]⟩, .inl ⟨h.symm, by simp⟩⟩
      · exact .inl ⟨by simp [update, h], by simp [update, h]⟩
    · exact ⟨by simp [update, hk.1], by simp [update, hk.1]⟩

/-- An empty set would go under the version that it had. -/
theorem setRemove_of_empty {until_ : Option Instant}
    (h : (s.purge key now).entries[key]? = some ⟨.members ∅, until_⟩) (member : Bytes) :
    s.setRemove key member now = (.ok false, (s.purge key now).erase key) ∧
      ∀ k, (s.setRemove key member now).2.version k = (s.purge key now).version k := by
  have hempty : (∅ : Std.ExtTreeSet Bytes).contains member = false := Std.ExtTreeSet.contains_empty
  have hleft : (∅ : Std.ExtTreeSet Bytes).isEmpty = true := Std.ExtTreeSet.isEmpty_empty
  have heq : s.setRemove key member now = (.ok false, (s.purge key now).erase key) := by
    rw [setRemove_eq_follow s key 0]
    unfold follow
    dsimp only
    rw [h, Rule.setRemove_of_not_contains hempty, hleft]
    rfl
  exact ⟨heq, fun k => by rw [heq]; rfl⟩

theorem purge_advances : Advances now (fun _ => False) s (s.purge key now) := by
  by_cases h : s.Overdue key now
  · rw [purge_of_overdue h]
    refine ⟨Nat.le_succ _, fun k => ?_, fun _ hk => hk.elim⟩
    by_cases hk : key = k
    · exact .inr ⟨⟨by simp [hk], by simp [hk]⟩, .inr (hk ▸ h)⟩
    · exact .inl ⟨by simp [hk], by simp [hk]⟩
  · rw [purge_of_not_overdue h]
    exact Advances.refl now s

/-- **An operation changes its key exactly if its answer shows it**, where the key holds no empty set. -/
theorem follow_advances (hfilled : ∀ e, s.live now key = some e → e.Filled) {rule : Rule α}
    {shown : Except Error α → Prop} (h : Rule.Shows rule shown) :
    Advances now (fun k => k = key ∧ shown (s.follow rule key max now).1) s
      (s.follow rule key max now).2 := by
  unfold follow
  dsimp only
  rw [entries_purge_self]
  obtain ⟨htouches, herases⟩ := h (s.live now key) ((s.purge key now).isFull key max)
  have hnot : (rule (s.live now key) ((s.purge key now).isFull key max)).2 ≠ .erase := by
    intro herase
    obtain ⟨-, e, he, hempty⟩ := herases herase
    exact hempty (hfilled e he)
  refine ((purge_advances s key now).trans (update_advances _ key now hnot)).congr fun k => ?_
  rw [false_or, htouches]

theorem apply_advances (hs : s.WellFormed max) (c : Command) :
    Advances now (fun k => c.Changes (.ofAnswer (s.apply c max now).1) k) s (s.apply c max now).2 := by
  rw [apply_eq_follow]
  refine (s.follow_advances c.key max now (fun _ => hs.filled_live)
    (Rule.ofCommand_shows now c)).congr fun k => ?_
  constructor
  · rintro ⟨rfl, h⟩
    exact h
  · intro h
    have hk := Rule.key_eq_of_changes h
    exact ⟨hk, hk ▸ h⟩

end State

namespace Purges

variable {now : Instant} {s s' s'' : State}

theorem advances (h : Purges now s s') : Advances now (fun _ => False) s s' := by
  induction h with
  | refl => exact Advances.refl now s
  | @purge s' _ key ih => exact (ih.trans (s'.purge_advances key now)).congr fun _ => or_self_iff

end Purges

namespace State

variable (s : State) (key : String) (max : Nat) (now : Instant)

/-! ## Batches -/

/-- **A batch changes what its commands change by their replies.** Of a batch that crashed there are no
replies, so nothing is said about what its commands changed. -/
theorem applyAll_advances (hs : s.WellFormed max) (commands : List Command) :
    ∃ changed, Advances now changed s (s.applyAll commands max now).2 ∧
      ∀ replies, (s.applyAll commands max now).1 = .ok replies →
        ∀ k, changed k ↔ Command.SomeChanges commands replies k := by
  induction commands generalizing s with
  | nil =>
    refine ⟨fun _ => False, Advances.refl now s, fun replies _ k => ?_⟩
    simp [Command.SomeChanges]
  | cons c rest ih =>
    have hfirst := s.apply_advances max now hs c
    by_cases hcrash : ∃ reason, (s.apply c max now).1 = .error (.crash reason)
    · obtain ⟨reason, hreason⟩ := hcrash
      -- nothing behind the crash is carried out, and there are no replies to speak of
      rw [applyAll_cons_crash s max now c rest hreason]
      exact ⟨_, hfirst, fun _ h => by cases h⟩
    · rw [applyAll_cons s max now c rest fun reason h => hcrash ⟨reason, h⟩]
      obtain ⟨changed, hrest, hreplies⟩ := ih (s.apply c max now).2 (hs.apply c now)
      generalize (s.apply c max now).2.applyAll rest max now = tail at hrest hreplies
      obtain ⟨answer, after⟩ := tail
      cases answer with
      | error e => exact ⟨_, hfirst.trans hrest, fun _ h => by cases h⟩
      | ok replies =>
        refine ⟨_, hfirst.trans hrest, fun all h k => ?_⟩
        cases h
        rw [hreplies replies rfl k]
        simp [Command.SomeChanges]

/-- **A watch answers the versions that it leaves behind**, of keys that are not overdue. Keys that come
again or behind one another do not disturb this: no purge touches what was purged already. -/
theorem watch_versions (keys : List String) :
    (s.watch keys now).1 = keys.map (fun k => (k, (s.watch keys now).2.version k)) ∧
      ∀ k ∈ keys, ¬ (s.watch keys now).2.Overdue k now := by
  induction keys generalizing s with
  | nil => exact ⟨rfl, fun _ h => absurd h List.not_mem_nil⟩
  | cons key rest ih =>
    obtain ⟨hversions, hnot⟩ := ih (s.purge key now)
    have hspared : Spared key (s.purge key now) ((s.purge key now).watch rest now).2 :=
      ((s.purge key now).watch_purges now rest).advances.spared id (s.not_overdue_purge key now)
    refine ⟨?_, fun k hk => ?_⟩
    · rw [List.map_cons]
      exact congr (congrArg List.cons (by rw [← hspared.version]; rfl)) hversions
    · rcases List.mem_cons.mp hk with rfl | hk
      · exact fun h => s.not_overdue_purge k now ((hspared.overdue_iff now).mp h)
      · exact hnot k hk

/-- **A commit passes exactly if no watched key is overdue or has another version**, and then the check
has left everything as it was. A purge would have given the key a version newer than the watched one. -/
theorem unchanged_iff {s : State} {now : Instant} {watched : List (String × Nat)}
    (hold : ∀ w ∈ watched, w.2 ≤ s.clock) :
    ((s.unchanged watched now).1 = true ↔
      ∀ w ∈ watched, ¬ s.Overdue w.1 now ∧ s.version w.1 = w.2) ∧
    ((s.unchanged watched now).1 = true → (s.unchanged watched now).2 = s) := by
  induction watched with
  | nil => exact ⟨⟨fun _ _ h => absurd h List.not_mem_nil, fun _ => rfl⟩, fun _ => rfl⟩
  | cons w rest ih =>
    obtain ⟨hiff, hsame⟩ := ih fun w' h => hold w' (List.mem_cons_of_mem _ h)
    rw [List.forall_mem_cons, unchanged]
    by_cases hover : s.Overdue w.1 now
    · have hne : ¬ (s.purge w.1 now).version w.1 = w.2 := by
        have hle := hold w List.mem_cons_self
        rw [purge_of_overdue hover, version_remove, if_pos rfl]
        omega
      simp [hne, hover]
    · rw [purge_of_not_overdue hover]
      by_cases hv : s.version w.1 = w.2
      · simp only [if_pos hv]
        exact ⟨hiff.trans ⟨fun h => ⟨⟨hover, hv⟩, h⟩, And.right⟩, hsame⟩
      · simp [hv]

/-- **A commit changes what its commands change**, and nothing if it is refused. -/
theorem exec_advances (hs : s.WellFormed max) (watched : List (String × Nat)) (commands : List Command) :
    ∃ changed, Advances now changed s (s.exec watched commands max now).2 ∧
      (crashed (s.exec watched commands max now).1 = false →
        ∀ k, changed k ↔ ∃ replies, (s.exec watched commands max now).1 = .ok (some replies) ∧
          Command.SomeChanges commands replies k) := by
  have hidle := (s.unchanged_purges now watched).advances
  have hchecked := hs.purges (s.unchanged_purges now watched)
  rw [exec_eq]
  split
  · obtain ⟨changed, hbatch, hreplies⟩ :=
      (s.unchanged watched now).2.applyAll_advances max now hchecked commands
    refine ⟨changed, (hidle.trans hbatch).congr fun _ => or_iff_right id, fun h k => ?_⟩
    have hok := (s.unchanged watched now).2.applyAll_ok max now commands
    generalize (s.unchanged watched now).2.applyAll commands max now = result at h hok hreplies
    obtain ⟨answer, after⟩ := result
    cases answer with
    | ok replies =>
      rw [hreplies replies rfl k]
      simp [Except.map]
    | error e =>
      cases e with
      | crash reason => cases h
      | _ =>
        -- only a crash ends a batch early
        obtain ⟨replies, hreplies⟩ := hok rfl
        cases hreplies
  · exact ⟨_, hidle, fun _ k => by simp⟩

end State

end WatchedStore.Memory
