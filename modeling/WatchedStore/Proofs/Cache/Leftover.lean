import WatchedStore.Proofs.Cache.Neighbours

/-!
# What a put leaves that fails

A put is one batch: the entry is stored, its key is listed in the tracking set, and the set's deadline is
renewed. A command that fails does not take back the ones before it, and does not keep away the ones behind
it. So a put that fails can leave something (`put_failed_leaves`).

**The law** (`put_failed`): which of two things it leaves depends on whether there was room for the entry.
If not, there is none, and no key is stored that was not stored before; but a tracking set that is there may
list the key. If there was, the entry stays to be read, and is not tracked. Nothing else changes.
-/

namespace WatchedStore.Memory

/-! ## Commands that fail -/

/-- Whether there is no room for a key that is not stored. -/
def NoRoom (max : Nat) (s : State) (key : String) : Prop := s.entries[key]? = none ∧ max ≤ s.entries.size

section Commands

variable {s : State} {key k : String} {max : Nat} {now : Instant}

/-- **A key that there is no room for** is not stored, not even with its time over. -/
theorem not_stored_of_full (hs : s.WellFormed max) (h : (s.purge key now).isFull key max = true) :
    s.purge key now = s ∧ NoRoom max s key := by
  have hpurge : s.purge key now = s := by
    refine State.purge_of_not_overdue fun hover => ?_
    rw [State.purge_of_overdue hover, State.room_of_overdue hs hover] at h
    cases h
  rw [hpurge] at h
  simp only [State.isFull, Bool.and_eq_true, decide_eq_true_eq, Bool.not_eq_true'] at h
  refine ⟨hpurge, ?_, h.1⟩
  have hnone := h.2
  rw [Std.ExtTreeMap.contains_eq_isSome_getElem?, Option.isSome_eq_false_iff, Option.isNone_iff_eq_none] at hnone
  exact hnone

theorem full_of_noRoom (h : NoRoom max s key) (now : Instant) :
    s.live now key = none ∧ (s.purge key now).isFull key max = true := by
  have hnot : ¬ s.Overdue key now := by
    rintro ⟨e, he, -⟩
    rw [h.1] at he
    cases he
  refine ⟨(State.live_of_not_overdue hnot).trans h.1, ?_⟩
  simp [State.purge_of_not_overdue hnot, State.isFull, Std.ExtTreeMap.contains_eq_isSome_getElem?, h.1, h.2]

/-- **Bytes are stored, or there was no room for them.** -/
theorem apply_set {value : Bytes} {ttl : Option Duration} {until_ : Option Instant} (hs : s.WellFormed max)
    (hdeadline : State.deadline ttl now = .ok until_) :
    (¬ NoRoom max s key ∧ (∃ reply, (s.apply (.set key value ttl) max now).1 = .ok reply) ∧
      ∀ k, (s.apply (.set key value ttl) max now).2.entries[k]? =
        if k = key then some ⟨.bytes value, until_⟩ else s.entries[k]?) ∨
    ((s.apply (.set key value ttl) max now).2 = s ∧ NoRoom max s key) := by
  cases hfull : (s.purge key now).isFull key max with
  | true =>
    obtain ⟨hpurge, hnone⟩ := not_stored_of_full hs hfull
    refine .inr ⟨?_, hnone⟩
    rw [State.apply, State.set, hfull, hpurge]
    rfl
  | false =>
    have hroom : ¬ NoRoom max s key := by
      intro hnone
      rw [(full_of_noRoom hnone now).2] at hfull
      cases hfull
    refine .inl ⟨hroom, State.apply_of_accepts (Command.accepts_set hdeadline) hfull, fun k => ?_⟩
    rw [State.apply_eq_follow, State.entries_follow]
    simp only [Rule.ofCommand, Rule.map, Rule.set, Command.key, hfull, hdeadline, Bool.false_eq_true, if_false,
      Update.after]

/-- **A member is added, or the key holds bytes, or there was no room for a set.** -/
theorem apply_setAdd (hs : s.WellFormed max) (member : Bytes) :
    (∃ reply, (s.apply (.setAdd key member) max now).1 = .ok reply) ∨
    ((s.apply (.setAdd key member) max now).2 = s ∧ (NoRoom max s key ∨
      ∃ b until_, s.live now key = some ⟨.bytes b, until_⟩)) := by
  cases hanswer : (s.apply (.setAdd key member) max now).1 with
  | ok reply => exact .inl ⟨reply, rfl⟩
  | error e =>
    refine .inr ⟨State.apply_of_asError? (c := .setAdd key member) trivial hs ?_, ?_⟩
    · rw [hanswer]
      exact Rule.asError?_ofError e
    · rw [State.apply_eq_follow, State.follow_fst] at hanswer
      rcases hheld : s.live now key with _ | ⟨b | set, until_⟩
      · cases hfull : (s.purge key now).isFull key max with
        | true =>
          exact .inl (not_stored_of_full hs hfull).2
        | false =>
          simp only [Command.key, hheld, hfull] at hanswer
          cases hanswer
      · exact .inr ⟨b, until_, rfl⟩
      · simp only [Command.key, hheld, Rule.ofCommand, Rule.map, Rule.setAdd] at hanswer
        split at hanswer <;> cases hanswer

/-- No set is made where there is no room for it. -/
theorem entries_setAdd_of_noRoom {member : Bytes} (h : NoRoom max s key) :
    (s.apply (.setAdd key member) max now).2.entries[key]? = none := by
  obtain ⟨hlive, hfull⟩ := full_of_noRoom h now
  rw [State.apply_eq_follow, State.entries_follow, show (Command.setAdd key member).key = key from rfl,
    if_pos rfl, hlive, hfull]
  rfl

/-- **A renewed deadline.** -/
theorem apply_expire {ttl : Duration} {until_ : Option Instant}
    (hdeadline : State.deadline (some ttl) now = .ok until_) :
    (s.apply (.expire key ttl) max now).2.entries[k]? =
      if k = key then (s.live now key).map fun e => { e with deadline := until_ } else s.entries[k]? := by
  rw [State.apply_eq_follow, State.entries_follow]
  by_cases hk : k = key
  · rw [show (Command.expire key ttl).key = key from rfl, if_pos hk, if_pos hk]
    rcases s.live now key with _ | e
    · rfl
    · simp only [Rule.ofCommand, Rule.map, Rule.expire, hdeadline, Update.after, Option.map_some]
  · rw [show (Command.expire key ttl).key = key from rfl, if_neg hk, if_neg hk]

end Commands

end WatchedStore.Memory

namespace WatchedStore.Cache

open Memory WatchedStore.Action

/-! ## One put -/

section Put

variable {r : Region} {s : State} {key : String} {json : Bytes} {max : Nat} {now : Instant}

/-- What the last command of a put leaves under the tracking key: nothing but the deadline changes. -/
def Region.renewed (r : Region) (until_ : Option Instant) (held : Option Entry) : Option Entry :=
  held.map fun e => { e with deadline := if r.expiration.isSome then until_ else e.deadline }

theorem entries_renewal (max : Nat) {until_ : Option Instant} (hdeadline : State.deadline r.expiration now = .ok until_)
    (hrep : r.Representable now) (hover : ¬ s.Overdue r.trackingKey now) (k : String) :
    (s.applyAll (r.expiration.map fun ttl => Command.expire r.trackingKey ttl).toList max now).2.entries[k]? =
      if k = r.trackingKey then r.renewed until_ s.entries[k]? else s.entries[k]? := by
  unfold Region.renewed
  unfold Region.Representable at hrep
  cases hexpiration : r.expiration with
  | none =>
    show s.entries[k]? = _
    by_cases hk : k = r.trackingKey <;> simp [hk]
  | some ttl =>
    rw [hexpiration] at hdeadline
    have hc : (Command.expire r.trackingKey ttl).Representable now := hrep ttl hexpiration
    rw [Option.map_some, Option.toList_some, State.applyAll_cons_of_representable hc]
    show (s.apply _ max now).2.entries[k]? = _
    rw [apply_expire hdeadline, State.live_of_not_overdue hover]
    by_cases hk : k = r.trackingKey
    · subst hk
      simp
    · rw [if_neg hk, if_neg hk]

/-- **What a put leaves that fails.** If there was no room for the entry, all that can have changed is what
the tracking key holds, if it was stored. If there was, the entry is stored, and the tracking key holds no
set: nothing, or bytes, whose deadline was renewed. -/
theorem putCommands_fail (hs : s.WellFormed max) {until_ : Option Instant}
    (hdeadline : State.deadline r.expiration now = .ok until_) (hrep : r.Representable now)
    (hfail : succeeds (s.applyAll (r.putCommands key json) max now).1 = false) :
    let after := (s.applyAll (r.putCommands key json) max now).2
    (NoRoom max s (r.storageKey key) ∧
      (∀ k, k ≠ r.trackingKey → after.entries[k]? = s.entries[k]?) ∧
      (s.entries[r.trackingKey]? = none → after.entries[r.trackingKey]? = none)) ∨
    (¬ NoRoom max s (r.storageKey key) ∧
      after.entries[r.storageKey key]? = some ⟨.bytes json, until_⟩ ∧
      ¬ HoldsSet after.entries[r.trackingKey]? ∧
      (∀ k, k ≠ r.storageKey key → k ≠ r.trackingKey → after.entries[k]? = s.entries[k]?) ∧
      (r.trackingKey ≠ r.storageKey key →
        after.entries[r.trackingKey]? = r.renewed until_ s.entries[r.trackingKey]?)) := by
  have hall := representable_put key json hrep
  have hsetRep := hall _ List.mem_cons_self
  have htraceRep := hall _ (List.mem_cons_of_mem _ List.mem_cons_self)
  rw [Region.putCommands, List.cons_append, List.cons_append, List.nil_append] at hfail ⊢
  rw [State.applyAll_cons_of_representable hsetRep, State.applyAll_cons_of_representable htraceRep]
  rw [← Bool.not_eq_true, State.succeeds_cons_iff, State.succeeds_cons_iff] at hfail
  dsimp only
  generalize hs₁ : (s.apply (.set (r.storageKey key) json r.expiration) max now).2 = s₁ at hfail ⊢
  have hwf₁ : s₁.WellFormed max := hs₁ ▸ hs.apply _ now
  have hover := s₁.not_overdue_setAdd r.trackingKey (Bytes.ofText (r.storageKey key)) max now
  have hrenewed := (renew_succeeds max hrep hover).2
  have hentries := fun k => entries_renewal max hdeadline hrep hover k
  rcases apply_set hs hdeadline with ⟨hroom, hentry, hstored⟩ | ⟨hsame, hnone⟩
  · rw [hs₁] at hstored
    rcases apply_setAdd hwf₁ (Bytes.ofText (r.storageKey key)) with htrace | ⟨hrefused, hheld⟩
    · exact absurd ⟨hentry, htrace, hrenewed⟩ hfail
    · rw [hrefused] at hentries ⊢
      refine .inr ⟨hroom, ?_, ?_, fun k hk htk => ?_, fun hne => ?_⟩
      · rw [hentries, hstored, if_pos rfl]
        split
        · simp [Region.renewed]
        · rfl
      · rw [hentries, if_pos rfl]
        rintro ⟨set, until', hset⟩
        rcases hheld with ⟨hnone, -⟩ | ⟨b, until', hbytes⟩
        · rw [hnone] at hset
          cases hset
        · rw [State.entries_of_live hbytes] at hset
          cases hset
      · rw [hentries, if_neg htk, hstored, if_neg hk]
      · rw [hentries, if_pos rfl, hstored, if_neg hne]
  · obtain rfl : s = s₁ := hsame.symm.trans hs₁
    refine .inl ⟨hnone, fun k hk => ?_, fun htk => ?_⟩
    · rw [hentries, if_neg hk, State.entries_apply_of_ne _ _ _ hk]
    · rw [hentries, if_pos rfl, entries_setAdd_of_noRoom ⟨htk, hnone.2⟩]
      rfl

/-- **A put that fails** leaves what its batch leaves, in which something has failed. -/
theorem put_of_error {codec : Codec α} {value : α} {s : Store} {e : Error} (hsound : s.poisoned = false)
    (hrep : r.Representable now) (hencode : codec.encode value = .ok json)
    (herror : ((Operation.put key value).alone codec r ⟨s, now, []⟩).1 = .error e) :
    succeeds (s.state.applyAll (r.putCommands key json) s.maxEntries now).1 = false ∧
      ((Operation.put key value).alone codec r ⟨s, now, []⟩).2.store =
        { s with state := (s.state.applyAll (r.putCommands key json) s.maxEntries now).2 } := by
  obtain ⟨hleft, hok, -⟩ := put_alone key hencode r ⟨s, now, []⟩
  have hbatch := request_batch_of_sound hsound (representable_put key json hrep)
  constructor
  · refine Bool.eq_false_iff.mpr fun hgood => ?_
    rw [hok ((congrArg succeeds (congrArg Prod.fst hbatch)).trans hgood)] at herror
    cases herror
  · exact (congrArg Solo.store hleft).trans (congrArg Prod.snd hbatch)

/-- What is stored for a key in a store, as it is read without being parsed. -/
def Region.raw (r : Region) (key : String) (s : Store) (now : Instant) : Except Error (Option Bytes) :=
  ((r.getRaw key).run Solo.backend ⟨s, now, []⟩).1

theorem raw_of_sound {s : Store} (hsound : s.poisoned = false) (r : Region) (key : String) (now : Instant) :
    r.raw key s now = (Rule.get (s.state.live now (r.storageKey key)) false).1 :=
  congrArg Prod.fst (get_of_sound hsound (r.storageKey key) now)

end Put

/-- **A put that fails leaves no more than its own entry**, and that only if there was room for it. Let a
put fail on a store that can come about, with a deadline that the clock can show and a value that has a
text. If the lock is poisoned, nothing has changed. If there was no room for the entry, it is not stored: a
read finds what it found before, no key but the tracking key has changed, and that is stored only if it was
stored before. Otherwise the entry stays: a read finds the new text, as long as the region's entries live;
but it is not tracked, since the tracking key holds nothing, or bytes, and of all other entries only the
deadline of these bytes has changed. -/
theorem put_failed {codec : Codec α} {r : Region} {key : String} {value : α} {json : Bytes} {s : Store}
    {t now : Instant} {e : Error} (hs : Reachable t s) (hrep : r.Representable now)
    (hencode : codec.encode value = .ok json)
    (herror : ((Operation.put key value).alone codec r ⟨s, now, []⟩).1 = .error e) :
    let after := ((Operation.put key value).alone codec r ⟨s, now, []⟩).2.store
    let until_ := r.expiration.map fun ttl => now + ttl.nanoseconds
    (s.poisoned = true ∧ after = s) ∨
    (NoRoom s.maxEntries s.state (r.storageKey key) ∧ (∀ later, r.raw key after later = r.raw key s later) ∧
      (∀ k, k ≠ r.trackingKey → after.state.entries[k]? = s.state.entries[k]?) ∧
      (s.state.entries[r.trackingKey]? = none → after.state.entries[r.trackingKey]? = none)) ∨
    (¬ NoRoom s.maxEntries s.state (r.storageKey key) ∧
      (∀ later, r.raw key after later =
        .ok (if (⟨.bytes json, until_⟩ : Entry).isExpired later then none else some json)) ∧
      ¬ HoldsSet after.state.entries[r.trackingKey]? ∧
      (∀ k, k ≠ r.storageKey key → k ≠ r.trackingKey → after.state.entries[k]? = s.state.entries[k]?) ∧
      (r.trackingKey ≠ r.storageKey key →
        after.state.entries[r.trackingKey]? = r.renewed until_ s.state.entries[r.trackingKey]?)) := by
  cases hp : s.poisoned with
  | true =>
    have hleft := congrArg Solo.store (put_alone key hencode r ⟨s, now, []⟩).1
    exact .inl ⟨rfl, hleft.trans (Store.perform_of_poisoned now hp (.call _))⟩
  | false =>
    have hwf : s.state.WellFormed s.maxEntries := hs.wellFormed
    obtain ⟨until_, hdeadline⟩ := Rule.deadline_of_representable hrep
    obtain rfl := eq_of_deadline hdeadline
    obtain ⟨hfail, hleft⟩ := put_of_error hp hrep hencode herror
    have hafter : ({ s with state := (s.state.applyAll (r.putCommands key json) s.maxEntries now).2 } :
      Store).poisoned = false := hp
    rw [hleft]
    refine .inr ((putCommands_fail hwf hdeadline hrep hfail).imp ?_ ?_)
    · rintro ⟨hnone, hothers, htk⟩
      refine ⟨hnone, fun later => ?_, hothers, htk⟩
      have hkey : (s.state.applyAll (r.putCommands key json) s.maxEntries now).2.entries[r.storageKey key]? =
          s.state.entries[r.storageKey key]? := by
        by_cases hk : r.storageKey key = r.trackingKey
        · rw [hnone.1, hk]
          exact htk (hk ▸ hnone.1)
        · exact hothers _ hk
      rw [raw_of_sound hp, raw_of_sound hafter, State.live, State.live, hkey]
    · rintro ⟨hroom, hentry, hset, hothers, htk⟩
      refine ⟨hroom, fun later => ?_, hset, hothers, htk⟩
      rw [raw_of_sound hafter, State.live, hentry, Option.filter_some]
      cases (⟨.bytes json, _⟩ : Entry).isExpired later <;> rfl

/-- The tracking key of a region holds bytes. A put in it fails, and its entry is read afterwards. -/
theorem put_failed_untracked :
    let r : Region := ⟨"n", some "n:", none⟩
    let s := ({ maxEntries := 10 } : Store).perform 1 (.call (.request (.set "n~keys" [0x74] none)))
    let after := ((Operation.put "a" "x").alone .text r ⟨s, 2, []⟩).2.store
    r.raw "a" after 3 = .ok (some (Json.Document.string "x").encode) := by
  intro r s after
  have hreach : Reachable 1 s := ⟨10, (Reaches.refl.wait (by decide)).deed _⟩
  have herror : ((Operation.put "a" "x").alone .text r ⟨s, 2, []⟩).1 =
    .error (.command "WRONGTYPE Operation against a key holding the wrong kind of value") := by decide +kernel
  have hrep : r.Representable 2 := by
    intro ttl h
    cases h
  obtain ⟨hpoisoned, -⟩ | ⟨⟨-, hfull⟩, -⟩ | ⟨-, hraw, -⟩ := put_failed hreach hrep rfl herror
  · cases hpoisoned
  · exact absurd hfull (by decide +kernel)
  · exact (hraw 3).trans rfl

/-- **A put that fails can leave its entry.** The tracking key holds bytes, so the put is told that it has
the wrong type; but its entry has been stored by then, and is read where nothing was read before. -/
theorem put_failed_leaves :
    let r : Region := ⟨"n", some "n:", none⟩
    let s := ({ maxEntries := 10 } : Store).perform 1 (.call (.request (.set "n~keys" [0x74] none)))
    let out := (Operation.put "a" "x").alone .text r ⟨s, 2, []⟩
    Reachable 1 s ∧ out.1.isOk = false ∧ r.raw "a" s 2 = .ok none ∧
      r.raw "a" out.2.store 2 = .ok (some (Json.Document.string "x").encode) ∧
      s.state.entries.contains "n:a" = false ∧ out.2.store.state.entries.contains "n:a" = true := by
  refine ⟨⟨10, (Reaches.refl.wait (by decide)).deed _⟩, ?_⟩
  decide +kernel

end WatchedStore.Cache
