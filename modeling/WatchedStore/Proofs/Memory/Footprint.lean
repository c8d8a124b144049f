import WatchedStore.Proofs.Memory.Room

/-!
# Footprints

A command reads and changes what its key holds. Of all other keys it sees one thing only, whether there is
room; so a command that succeeds has not depended on them at all.

Hence two contents can be compared in which some keys hold the same, and of which the one holds nothing
besides (`Part`). It is no fuller than the other, so what is not refused in the whole is not refused in the
part, and both go on alike as long as nobody else touches the keys that they share.

**The laws**: a batch keeps whatever each of its commands keeps, a crash or not (`applyAll_keeps`). A
command with another key leaves a key alone (`entries_apply_of_ne`), one that succeeds does the same in a
part as in the whole (`Part.apply`), and nothing brings a member into a set but its addition
(`hasMember_of_apply`).
-/

namespace WatchedStore.Memory

namespace State

variable {s : State} {key k : String} {max : Nat} {now : Instant} {c : Command}

/-! ## One key -/

theorem entries_update_of_ne (s : State) (u : Update) (h : k ≠ key) :
    (s.update key u).entries[k]? = s.entries[k]? := by
  cases u with
  | keep => rfl
  | put e => rw [update, entries_put, if_neg (Ne.symm h)]
  | drop => rw [update, entries_remove, if_neg (Ne.symm h)]
  | erase => rw [update, entries_erase, if_neg (Ne.symm h)]

theorem entries_update_self (s : State) (key : String) (u : Update) :
    (s.update key u).entries[key]? = u.after s.entries[key]? := by
  cases u with
  | keep => rfl
  | put e => rw [update, entries_put, if_pos rfl, Update.after]
  | drop => rw [update, entries_remove, if_pos rfl, Update.after]
  | erase => rw [update, entries_erase, if_pos rfl, Update.after]

/-- **An operation stores under its key** what its rule says, and nothing under any other. -/
theorem entries_follow (rule : Rule α) (key : String) (max : Nat) (now : Instant) (s : State) :
    (s.follow rule key max now).2.entries[k]? =
      if k = key then
        (rule (s.live now key) ((s.purge key now).isFull key max)).2.after (s.live now key)
      else s.entries[k]? := by
  unfold follow
  dsimp only
  by_cases hk : k = key
  · subst hk
    rw [if_pos rfl, entries_update_self, entries_purge_self]
  · rw [if_neg hk, entries_update_of_ne _ _ hk, entries_purge_of_ne _ _ (Ne.symm hk)]

/-- **A command leaves other keys alone**, be it carried out or not. -/
theorem entries_apply_of_ne (s : State) (max : Nat) (now : Instant) (h : k ≠ c.key) :
    (s.apply c max now).2.entries[k]? = s.entries[k]? := by
  rw [apply_eq_follow, entries_follow, if_neg h]

/-- A clean-up leaves of every key what can be seen of it. -/
theorem entries_purgeAll (s : State) (now : Instant) (k : String) :
    (s.purgeAll now).entries[k]? = s.live now k := by
  have hfold : ∀ (keys : List String) (s : State),
      (keys.foldl (fun s key => s.purge key now) s).entries[k]? =
        if k ∈ keys then s.live now k else s.entries[k]? := by
    intro keys
    induction keys with
    | nil => exact fun s => rfl
    | cons key rest ih =>
      intro s
      rw [List.foldl_cons, ih, live_purge]
      by_cases hrest : k ∈ rest
      · rw [if_pos hrest, if_pos (List.mem_cons_of_mem _ hrest)]
      by_cases hk : k = key
      · subst hk
        rw [if_neg hrest, if_pos List.mem_cons_self, entries_purge_self]
      · rw [if_neg hrest, if_neg (by simp [hk, hrest]), entries_purge_of_ne _ _ (Ne.symm hk)]
  rw [purgeAll, hfold]
  by_cases hin : k ∈ s.entries.keys
  · rw [if_pos hin]
  · have hnone : s.entries[k]? = none := by
      rw [Std.ExtTreeMap.mem_keys] at hin
      exact Std.ExtTreeMap.getElem?_eq_none hin
    rw [if_neg hin, live, hnone]
    rfl

/-! ## Batches -/

theorem applyAll.cons_fst (r : Reply) (result : Except Error (List Reply) × State) :
    (applyAll.cons r result).1 = result.1.map (r :: ·) := by
  obtain ⟨answer, s⟩ := result
  cases answer <;> rfl

/-- **A batch keeps whatever each of its commands keeps**, also if it breaks off. -/
theorem applyAll_keeps {I : State → Prop} {commands : List Command}
    (hkeeps : ∀ c ∈ commands, ∀ s, I s → I (s.apply c max now).2) (h : I s) :
    I (s.applyAll commands max now).2 := by
  induction commands generalizing s with
  | nil => exact h
  | cons c rest ih =>
    have hfirst := hkeeps c List.mem_cons_self s h
    by_cases hcrash : ∃ reason, (s.apply c max now).1 = .error (.crash reason)
    · obtain ⟨reason, hreason⟩ := hcrash
      rw [applyAll_cons_crash s max now c rest hreason]
      exact hfirst
    · rw [applyAll_cons s max now c rest fun reason h => hcrash ⟨reason, h⟩, applyAll.cons_snd]
      exact ih (fun c hc => hkeeps c (List.mem_cons_of_mem _ hc)) hfirst

end State

/-! ## Members -/

namespace Rule

variable {held : Option Entry} {full : Bool} {x : Bytes} {now : Instant} {c : Command}

theorem hasMember_of_store {sum? : Option Int64} {until_ : Option Instant}
    (h : HasMember ((store sum? until_).2.after held) x) : HasMember held x := by
  cases sum? with
  | none => exact h
  | some sum => exact absurd h (not_hasMember_bytes _ _ x)

/-- **Nothing brings a member into a set but its addition.** -/
theorem hasMember_of_ofCommand (h : HasMember ((ofCommand now c held full).2.after held) x) :
    HasMember held x ∨ c = .setAdd c.key x := by
  cases c with
  | get key => rcases held with _ | ⟨_ | set, until_⟩ <;> exact .inl h
  | set key value ttl =>
    simp only [ofCommand, map, set] at h
    split at h
    · exact .inl h
    · split at h
      · exact absurd h (not_hasMember_bytes _ _ x)
      · exact .inl h
  | increment key amount =>
    rcases held with _ | ⟨b | set, until_⟩
    · simp only [ofCommand, map, increment] at h
      split at h
      · exact .inl h
      · exact .inl (hasMember_of_store h)
    · simp only [ofCommand, map, increment] at h
      split at h
      · exact .inl (hasMember_of_store h)
      · exact .inl h
    · exact .inl h
  | expire key ttl =>
    rcases held with _ | e
    · exact .inl h
    · simp only [ofCommand, map, expire] at h
      split at h
      · obtain ⟨b | set, until_⟩ := e
        · exact absurd h (not_hasMember_bytes _ _ x)
        · exact .inl (hasMember_members.mpr (hasMember_members.mp h))
      · exact .inl h
  | delete key =>
    rcases held with _ | e
    · exact .inl h
    · exact absurd h (not_hasMember_none x)
  | setAdd key member =>
    rcases held with _ | ⟨b | set, until_⟩
    · simp only [ofCommand, map, setAdd] at h
      split at h
      · exact .inl h
      · rcases Command.mem_insert.mp (hasMember_members.mp h) with rfl | hx
        · exact .inr rfl
        · exact absurd hx Std.ExtTreeSet.not_mem_empty
    · exact .inl h
    · simp only [ofCommand, map, setAdd] at h
      split at h
      · exact .inl h
      · rcases Command.mem_insert.mp (hasMember_members.mp h) with rfl | hx
        · exact .inr rfl
        · exact .inl (hasMember_members.mpr hx)
  | setRemove key member =>
    rcases held with _ | ⟨b | set, until_⟩
    · exact .inl h
    · exact .inl h
    · simp only [ofCommand, map, setRemove] at h
      split at h
      · split at h
        · exact absurd h (not_hasMember_none x)
        · exact .inl (hasMember_members.mpr (Command.mem_erase.mp (hasMember_members.mp h)).2)
      · split at h
        · exact absurd h (not_hasMember_none x)
        · exact .inl h

end Rule

namespace State

variable {s : State} {k : String} {max : Nat} {now : Instant} {x : Bytes}

/-- **The members of a set behind a command** were members before, or the command adds them. -/
theorem hasMember_of_apply {c : Command} (h : HasMember ((s.apply c max now).2.live now k) x) :
    HasMember (s.live now k) x ∨ c = .setAdd k x := by
  by_cases hk : k = c.key
  · subst hk
    rw [apply_eq_follow, live_follow_eq] at h
    dsimp only at h
    rw [if_pos rfl] at h
    exact Rule.hasMember_of_ofCommand h.of_filter
  · rw [live_apply_of_ne s hk] at h
    exact .inl h

end State

/-! ## Parts -/

/-- **Contents that are a part of others**: the keys that are shared hold the same, and all else is left
out. -/
structure Part (shared : String → Prop) (part whole : State) : Prop where
  same : ∀ k, shared k → part.entries[k]? = whole.entries[k]?
  nothing : ∀ k, ¬ shared k → part.entries[k]? = none

namespace Part

variable {shared : String → Prop} {part whole : State} {key : String} {max : Nat} {now : Instant}
  {c : Command}

theorem live (h : Part shared part whole) (hkey : shared key) (now : Instant) :
    part.live now key = whole.live now key := by
  rw [State.live, State.live, h.same key hkey]

/-- A part is no fuller. -/
theorem size_le (h : Part shared part whole) : part.entries.size ≤ whole.entries.size := by
  have hsub : part.entries.keys ⊆ whole.entries.keys := by
    intro k hk
    rw [Std.ExtTreeMap.mem_keys] at hk ⊢
    have hshared : shared k := by
      by_contra hnot
      have hnone := h.nothing k hnot
      rw [Std.ExtTreeMap.getElem?_eq_some_getElem hk] at hnone
      cases hnone
    rw [Std.ExtTreeMap.mem_iff_isSome_getElem?] at hk ⊢
    rwa [← h.same k hshared]
  have hnodup : part.entries.keys.Nodup := Std.ExtTreeMap.nodup_keys
  simpa using (hnodup.subperm hsub).length_le

theorem purge (h : Part shared part whole) (hkey : shared key) (now : Instant) :
    Part shared (part.purge key now) (whole.purge key now) where
  same k hk := by
    by_cases heq : k = key
    · subst heq
      rw [State.entries_purge_self, State.entries_purge_self, h.live hk]
    · rw [State.entries_purge_of_ne _ _ (Ne.symm heq), State.entries_purge_of_ne _ _ (Ne.symm heq), h.same k hk]
  nothing k hk := by
    have hne : key ≠ k := by
      rintro rfl
      exact hk hkey
    rw [State.entries_purge_of_ne _ _ hne, h.nothing k hk]

theorem purgeAll (h : Part shared part whole) (now : Instant) :
    Part shared (part.purgeAll now) (whole.purgeAll now) where
  same k hk := by rw [State.entries_purgeAll, State.entries_purgeAll, h.live hk]
  nothing k hk := by
    rw [State.entries_purgeAll, State.live, h.nothing k hk]
    rfl

/-- Whoever touches none of the keys that are shared leaves a part of the whole. -/
theorem beside {whole' : State} (h : Part shared part whole)
    (hsame : ∀ k, shared k → whole'.entries[k]? = whole.entries[k]?) : Part shared part whole' where
  same k hk := (h.same k hk).trans (hsame k hk).symm
  nothing := h.nothing

/-- An operation goes on alike if its rule does. -/
theorem follow {rule : Rule α} (h : Part shared part whole) (hkey : shared key)
    (hrule : rule (whole.live now key) ((part.purge key now).isFull key max) =
      rule (whole.live now key) ((whole.purge key now).isFull key max)) :
    (part.follow rule key max now).1 = (whole.follow rule key max now).1 ∧
      Part shared (part.follow rule key max now).2 (whole.follow rule key max now).2 := by
  have hlive := h.live hkey now
  refine ⟨?_, fun k hk => ?_, fun k hk => ?_⟩
  · rw [State.follow_fst, State.follow_fst, hlive, hrule]
  · rw [State.entries_follow, State.entries_follow, hlive, hrule, h.same k hk]
  · have hne : k ≠ key := by
      rintro rfl
      exact hk hkey
    rw [State.entries_follow, if_neg hne, h.nothing k hk]

/-- **A command that succeeds in the whole** does the same in a part. -/
theorem apply (h : Part shared part whole) (hkey : shared c.key) {reply : Reply}
    (hok : (whole.apply c max now).1 = .ok reply) :
    (part.apply c max now).1 = .ok reply ∧
      Part shared (part.apply c max now).2 (whole.apply c max now).2 := by
  rw [State.apply_eq_follow] at hok ⊢
  rw [State.apply_eq_follow]
  have hwhole := hok
  rw [State.follow_fst] at hwhole
  have hfree := Command.ofCommand_of_ok hwhole
  -- a part has room where the whole has
  have hroom : (part.purge c.key now).isFull c.key max = true →
      (whole.purge c.key now).isFull c.key max = true := by
    intro hfull
    have hpurged := h.purge hkey now
    have hle := hpurged.size_le
    simp only [State.isFull, Bool.and_eq_true, decide_eq_true_eq, Bool.not_eq_true'] at hfull ⊢
    refine ⟨Nat.le_trans hfull.1 hle, ?_⟩
    rw [Std.ExtTreeMap.contains_eq_isSome_getElem?, ← hpurged.same _ hkey,
      ← Std.ExtTreeMap.contains_eq_isSome_getElem?]
    exact hfull.2
  have hrule : Rule.ofCommand now c (whole.live now c.key) ((part.purge c.key now).isFull c.key max) =
      Rule.ofCommand now c (whole.live now c.key) ((whole.purge c.key now).isFull c.key max) := by
    cases hfull : (part.purge c.key now).isFull c.key max with
    | true => rw [hroom hfull]
    | false => exact hfree.symm
  obtain ⟨hanswer, hpart⟩ := h.follow hkey hrule
  exact ⟨hanswer.trans hok, hpart⟩

/-- **A batch that succeeds in the whole** does the same in a part. -/
theorem applyAll {commands : List Command} (h : Part shared part whole)
    (hkeys : ∀ c ∈ commands, shared c.key)
    (hgood : succeeds (whole.applyAll commands max now).1 = true) :
    (part.applyAll commands max now).1 = (whole.applyAll commands max now).1 ∧
      Part shared (part.applyAll commands max now).2 (whole.applyAll commands max now).2 := by
  induction commands generalizing part whole with
  | nil => exact ⟨rfl, h⟩
  | cons c rest ih =>
    obtain ⟨hkey, hrest⟩ := List.forall_mem_cons.mp hkeys
    obtain ⟨⟨reply, hreply⟩, hgoodRest⟩ := State.succeeds_cons_iff.mp hgood
    obtain ⟨hsame, hpart⟩ := h.apply hkey hreply
    obtain ⟨hsameRest, hpartRest⟩ := ih hpart hrest hgoodRest
    have hcalm : ∀ reason, (whole.apply c max now).1 ≠ .error (.crash reason) := by
      intro reason h
      rw [hreply] at h
      cases h
    rw [State.applyAll_cons whole max now c rest hcalm,
      State.applyAll_cons part max now c rest (hsame.trans hreply.symm ▸ hcalm), hsame, hreply]
    refine ⟨?_, by rwa [State.applyAll.cons_snd, State.applyAll.cons_snd]⟩
    rw [State.applyAll.cons_fst, State.applyAll.cons_fst, hsameRest]

end Part

end WatchedStore.Memory
