import WatchedStore.Proofs.Memory.Effect

/-!
# Room, and times that are over

How many keys are stored can be seen behind a batch. If there was room left then, no command of the batch
has been short of room, as long as none removes its key (`Rule.Fills`).

**The laws**: a rule that leaves fewer keys than there may be has found room (`room_of_size`). Nobody finds
the time of a key over that was used at the same reading, unless the use itself ended it
(`not_overdue_follow`): so a key that holds nothing then is not stored any more.
-/

namespace WatchedStore.Memory

/-- Whether a key that is stored stays so. -/
def Update.Leaves : Update → Prop
  | .keep | .put _ => True
  | .drop | .erase => False

/-- **A rule that never removes its key**, and makes it if it succeeds. -/
structure Rule.Fills (rule : Rule α) : Prop where
  keeps : ∀ held full, (rule held full).2.Leaves
  makes : ∀ a, (rule none false).1 = .ok a → ∃ e, (rule none false).2 = .put e

namespace State

variable {s : State} {key : String} {rule : Rule α} {max : Nat} {now : Instant}

theorem size_update {u : Update} (h : u.Leaves) (key : String) :
    s.entries.size ≤ (s.update key u).entries.size := by
  cases u with
  | keep => exact Nat.le_refl _
  | put e => exact Std.ExtTreeMap.size_le_size_insert
  | drop | erase => exact h.elim

theorem room_of_size (h : rule.Fills) (hsize : (s.follow rule key max now).2.entries.size < max) :
    (s.purge key now).isFull key max = false := by
  refine Bool.eq_false_iff.mpr fun hfull => ?_
  have hle : (s.purge key now).entries.size ≤ (s.follow rule key max now).2.entries.size :=
    size_update (h.keeps _ _) key
  have hmax : max ≤ (s.purge key now).entries.size := by
    simp only [isFull, Bool.and_eq_true, decide_eq_true_eq] at hfull
    exact hfull.1
  omega

/-- A key that was removed because its time was over is made again. -/
theorem size_follow (h : rule.Fills) {a : α} (ha : (s.follow rule key max now).1 = .ok a)
    (hroom : (s.purge key now).isFull key max = false) :
    s.entries.size ≤ (s.follow rule key max now).2.entries.size := by
  by_cases hover : s.Overdue key now
  · have hnone : (s.purge key now).entries[key]? = none := by
      rw [purge_of_overdue hover, entries_remove, if_pos rfl]
    unfold follow at ha ⊢
    dsimp only at ha ⊢
    rw [hroom, hnone] at ha ⊢
    obtain ⟨e, he⟩ := h.makes a ha
    rw [he, purge_of_overdue hover]
    have hmade : ((s.entries.erase key).insert key e).size = (s.entries.erase key).size + 1 := by
      simp [Std.ExtTreeMap.size_insert]
    exact Nat.le_trans Std.ExtTreeMap.size_le_size_erase (Nat.le_of_eq hmade.symm)
  · unfold follow
    rw [purge_of_not_overdue hover]
    exact size_update (h.keeps _ _) key

theorem fills_set {key : String} {value : Bytes} {ttl : Option Duration} :
    (Rule.ofCommand now (.set key value ttl)).Fills where
  keeps held full := by
    simp only [Rule.ofCommand, Rule.map, Rule.set]
    split
    · trivial
    · split <;> trivial
  makes a h := by
    simp only [Rule.ofCommand, Rule.map, Rule.set, Bool.false_eq_true, if_false] at h ⊢
    split at h
    · exact ⟨_, rfl⟩
    · cases h

theorem fills_setAdd {key : String} {member : Bytes} :
    (Rule.ofCommand now (.setAdd key member)).Fills where
  keeps held full := by
    rcases held with _ | ⟨_ | set, until_⟩ <;> simp only [Rule.ofCommand, Rule.map, Rule.setAdd]
    · split <;> trivial
    · trivial
    · split <;> trivial
  makes _ _ := ⟨_, rfl⟩

/-- A new deadline for a key whose time is not over makes no room. -/
theorem size_apply_expire {ttl : Duration} (h : ¬ s.Overdue key now) :
    s.entries.size ≤ (s.apply (.expire key ttl) max now).2.entries.size := by
  rw [apply_eq_follow]
  unfold follow
  rw [show (Command.expire key ttl).key = key from rfl, purge_of_not_overdue h]
  refine size_update ?_ key
  simp only [Rule.ofCommand, Rule.map, Rule.expire]
  split
  · split <;> trivial
  · trivial

/-! ## Time -/

/-- Nobody finds the time over of a key that was used at the same reading, unless the use ended it. -/
theorem not_overdue_follow
    (h : ∀ e, (rule (s.live now key) ((s.purge key now).isFull key max)).2 = .put e →
      e.isExpired now = false) : ¬ (s.follow rule key max now).2.Overdue key now := by
  rintro ⟨e, he, hover⟩
  unfold follow at he
  dsimp only at he
  rw [entries_purge_self] at he
  cases hupdate : (rule (s.live now key) ((s.purge key now).isFull key max)).2 with
  | keep =>
    rw [hupdate] at he
    exact s.not_overdue_purge key now ⟨e, he, hover⟩
  | put e' =>
    rw [hupdate, update, entries_put, if_pos rfl] at he
    cases he
    rw [h e hupdate] at hover
    cases hover
  | drop =>
    rw [hupdate, update, entries_remove, if_pos rfl] at he
    cases he
  | erase =>
    rw [hupdate, update, entries_erase, if_pos rfl] at he
    cases he

/-- Nor the time over of a key whose entry has kept its deadline. -/
theorem not_overdue_of_deadline
    (h : ∀ full e, (rule (s.live now key) full).2 = .put e →
      e.deadline = (s.live now key).bind Entry.deadline) :
    ¬ (s.follow rule key max now).2.Overdue key now := by
  refine not_overdue_follow fun e he => ?_
  have hdeadline := h _ e he
  unfold Entry.isExpired
  rw [hdeadline]
  cases hheld : s.live now key with
  | none => rfl
  | some before => exact not_expired_of_live hheld

theorem setRemove_deadline {member : Bytes} {held : Option Entry} {full : Bool} {e : Entry}
    (h : (Rule.setRemove member held full).2 = .put e) : e.deadline = held.bind Entry.deadline := by
  rcases held with _ | ⟨_ | set, until_⟩
  · cases h
  · cases h
  · simp only [Rule.setRemove] at h
    split at h <;> split at h <;> cases h
    rfl

theorem setAdd_deadline {member : Bytes} {held : Option Entry} {full : Bool} {e : Entry}
    (h : (Rule.setAdd member held full).2 = .put e) : e.deadline = held.bind Entry.deadline := by
  rcases held with _ | ⟨_ | set, until_⟩
  · simp only [Rule.setAdd] at h
    split at h <;> cases h
    rfl
  · cases h
  · simp only [Rule.setAdd] at h
    split at h <;> cases h
    rfl

theorem not_overdue_setRemove (s : State) (key : String) (member : Bytes) (max : Nat) (now : Instant) :
    ¬ (s.apply (.setRemove key member) max now).2.Overdue key now := by
  rw [apply_eq_follow]
  exact not_overdue_of_deadline fun _ _ => setRemove_deadline

theorem not_overdue_setAdd (s : State) (key : String) (member : Bytes) (max : Nat) (now : Instant) :
    ¬ (s.apply (.setAdd key member) max now).2.Overdue key now := by
  rw [apply_eq_follow]
  exact not_overdue_of_deadline fun _ _ => setAdd_deadline

end State

end WatchedStore.Memory
