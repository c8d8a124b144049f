import WatchedStore.Proofs.Cache.Clearing

/-!
# Operations one after the other

A client that has the store to itself uses regions, one operation after the other (`play`). Each operation
takes place at a reading of the clock and ends in a result, and leaves so many keys stored behind it
(`Occurrence`). Time passes before every call, also between the two calls of a clearing, and the store may
be cleaned up.

**The laws**: one for each operation says when it succeeds and what it leaves, of a store whose tracking
set is in order. A read and an eviction always succeed; a put does if its end can be told and there is room
left behind it (`put_alone`).
-/

namespace WatchedStore.Cache

open Memory WatchedStore.Action

/-- **An operation as it took place.** -/
structure Occurrence (α : Type) where
  region : Region
  operation : Operation α
  /-- The clock's reading at its last call. -/
  now : Instant
  result : Except Error (Option α)
  /-- How many keys were stored behind it. -/
  size : Nat

/-- **Operations of a client that has the store to itself**: how they take place, and what they leave. -/
def play (codec : Codec α) : List (Region × Operation α) → Solo → List (Occurrence α) × Solo
  | [], solo => ([], solo)
  | (r, op) :: rest, solo =>
    let (result, after) := op.alone codec r solo
    let (later, last) := play codec rest after
    (⟨r, op, after.now, result, after.store.state.entries.size⟩ :: later, last)

/-- Whether a region's entries that are put now end at a reading that the clock can show. -/
def Region.Representable (r : Region) (now : Instant) : Prop :=
  ∀ ttl, r.expiration = some ttl → (Instant.after? now ttl).isSome = true

variable {r : Region} {now : Instant}

/-! ## Room for a put -/

section Room

variable {s : State} {max : Nat} {key : String} {json : Bytes}

theorem representable_put (key : String) (json : Bytes) (h : r.Representable now) :
    ∀ c ∈ r.putCommands key json, c.Representable now := by
  unfold Region.putCommands
  unfold Region.Representable at h
  cases hexpiration : r.expiration with
  | none => simp [Command.Representable]
  | some ttl => simpa [Command.Representable] using h ttl hexpiration

/-- If there is room behind an entry and its trace, neither has been refused. -/
theorem track_of_room {k : String} {value member : Bytes} {ttl : Option Duration} {until_ : Option Instant}
    (hset : HoldsMembers (s.live now r.trackingKey)) (hk : k ≠ r.trackingKey)
    (hdeadline : State.deadline ttl now = .ok until_)
    (hroom : ((s.apply (.set k value ttl) max now).2.apply
      (.setAdd r.trackingKey member) max now).2.entries.size < max) :
    (∃ reply, (s.apply (.set k value ttl) max now).1 = .ok reply) ∧
      ∃ reply, ((s.apply (.set k value ttl) max now).2.apply
        (.setAdd r.trackingKey member) max now).1 = .ok reply := by
  have hsame : (s.apply (.set k value ttl) max now).2.live now r.trackingKey = s.live now r.trackingKey :=
    s.live_apply_of_ne (Ne.symm hk)
  rw [← hsame] at hset
  generalize hs₁ : (s.apply (.set k value ttl) max now).2 = s₁ at hset hroom ⊢
  obtain ⟨haccepts, -⟩ :=
    Command.leaves_setAdd r.trackingKey member hset (s₁.live_current now r.trackingKey)
  rw [State.apply_eq_follow] at hroom
  have hroomTrace := State.room_of_size State.fills_setAdd hroom
  obtain ⟨reply, hreply⟩ := State.apply_of_accepts haccepts hroomTrace
  have hle : s₁.entries.size ≤ _ := State.size_follow State.fills_setAdd
    ((State.apply_eq_follow ..).symm ▸ hreply) hroomTrace
  have hroomEntry := Nat.lt_of_le_of_lt hle hroom
  rw [← hs₁, State.apply_eq_follow] at hroomEntry
  exact ⟨State.apply_of_accepts (Command.accepts_set hdeadline)
    (State.room_of_size State.fills_set hroomEntry), reply, hreply⟩

/-- The deadline of a tracking set is renewed without asking for room. -/
theorem renew_succeeds (max : Nat) (hrep : r.Representable now) (hover : ¬ s.Overdue r.trackingKey now) :
    let renewal := (r.expiration.map fun ttl => Command.expire r.trackingKey ttl).toList
    s.entries.size ≤ (s.applyAll renewal max now).2.entries.size ∧
      succeeds (s.applyAll renewal max now).1 = true := by
  unfold Region.Representable at hrep
  cases hexpiration : r.expiration with
  | none => exact ⟨Nat.le_refl _, rfl⟩
  | some ttl =>
    have hc : (Command.expire r.trackingKey ttl).Representable now := hrep ttl hexpiration
    obtain ⟨until_, hdeadline⟩ := Rule.deadline_of_representable fun d (hd : some ttl = some d) =>
      Option.some.inj hd ▸ hrep ttl hexpiration
    obtain ⟨reply, hreply⟩ := State.apply_of_roomless (s := s) max
      (Command.roomless_expire r.trackingKey ttl) (Command.accepts_expire hdeadline)
    refine ⟨?_, State.succeeds_cons_iff.mpr ⟨⟨reply, hreply⟩, rfl⟩⟩
    rw [Option.map_some, Option.toList_some, State.applyAll_cons_of_representable hc]
    exact State.size_apply_expire hover

/-- **A put with room behind it has not been refused.** -/
theorem putCommands_succeed (hset : HoldsMembers (s.live now r.trackingKey))
    (hkey : r.storageKey key ≠ r.trackingKey) (hrep : r.Representable now)
    (hroom : (s.applyAll (r.putCommands key json) max now).2.entries.size < max) :
    succeeds (s.applyAll (r.putCommands key json) max now).1 = true := by
  obtain ⟨until_, hdeadline⟩ := Rule.deadline_of_representable hrep
  have hall := representable_put key json hrep
  have hsetRep := hall _ List.mem_cons_self
  have htraceRep := hall _ (List.mem_cons_of_mem _ List.mem_cons_self)
  rw [Region.putCommands, List.cons_append, List.cons_append, List.nil_append] at hroom ⊢
  rw [State.applyAll_cons_of_representable hsetRep, State.applyAll_cons_of_representable htraceRep] at hroom
  obtain ⟨hle, hrenewal⟩ := renew_succeeds max hrep (State.not_overdue_setAdd _ _ _ _ _)
  obtain ⟨hentry, htrace⟩ := track_of_room hset hkey hdeadline (Nat.lt_of_le_of_lt hle hroom)
  exact State.succeeds_cons_iff.mpr ⟨hentry, State.succeeds_cons_iff.mpr ⟨htrace, hrenewal⟩⟩

end Room

/-! ## Single operations -/

variable {owned : String → Prop} {ends : Option Instant → Prop} {solo : Solo} {codec : Codec α}

/-- Whatever comes of a batch, the operation that it ends leaves what the batch leaves, and succeeds only
if the batch does. -/
theorem run_finish_inv (commands : List Command) (event : Event) (solo : Solo) :
    let out := Program.run Solo.backend (Region.finish (α := α) commands event) solo
    out.2 = (solo.call (.request (.batch commands))).2 ∧
      (out.1.isOk = true → succeeds (solo.call (.request (.batch commands))).1 = true) := by
  rw [Region.finish, Solo.run_call]
  generalize solo.call (.request (.batch commands)) = result
  obtain ⟨answer, after⟩ := result
  cases answer with
  | error e => exact ⟨rfl, fun h => (by cases h)⟩
  | ok replies =>
    dsimp only [andThen]
    cases hcheck : Reply.check replies with
    | error e => exact ⟨rfl, fun h => (by cases h)⟩
    | ok _ => exact ⟨rfl, fun _ => succeeds_of_check hcheck⟩

/-- **A put by a client alone** does what its batch does, if the value has a text. -/
theorem put_alone (key : String) {value : α} {json : Bytes} (hencode : codec.encode value = .ok json)
    (r : Region) (solo : Solo) :
    let out := (Operation.put key value).alone codec r solo
    let batch := solo.call (.request (.batch (r.putCommands key json)))
    out.2 = batch.2 ∧ (succeeds batch.1 = true → out.1 = .ok none) ∧
      (out.1.isOk = true → succeeds batch.1 = true) := by
  have hrun : (Operation.put key value).alone codec r solo = Program.run Solo.backend
      (Region.finish (r.putCommands key json) (r.entryEvent "Cached value" key)) solo := by
    unfold Operation.alone Action.run
    rw [Operation.put_calls, hencode]
    rfl
  rw [hrun]
  obtain ⟨hleft, hok⟩ :=
    run_finish_inv (α := α) (r.putCommands key json) (r.entryEvent "Cached value" key) solo
  exact ⟨hleft, fun h => congrArg Prod.fst (run_finish _ h), hok⟩

/-- A value without a text is not put. -/
theorem put_alone_of_error {key : String} {value : α} {e : Error} (hencode : codec.encode value = .error e)
    (r : Region) (solo : Solo) : (Operation.put key value).alone codec r solo = (.error e, solo) := by
  unfold Operation.alone Action.run
  rw [Operation.put_calls, hencode]
  rfl

/-- **A read by a client alone** answers by what its key holds, and changes nothing that can be seen. -/
theorem get_alone (hsound : solo.store.poisoned = false) (codec : Codec α) (r : Region) (key : String) :
    ∃ after : Solo, (Operation.get key).alone codec r solo =
        ((Rule.get (solo.next.store.state.live solo.next.now (r.storageKey key)) false).1.bind codec.decode,
          after) ∧
      after.now = solo.next.now ∧ after.store.poisoned = false ∧
      after.store.state.live after.now = solo.next.store.state.live solo.next.now := by
  have hcall := get_of_sound ((Solo.poisoned_next solo).trans hsound) (r.storageKey key) solo.next.now
  refine ⟨{ solo.next with
      store := { solo.next.store with
        state := solo.next.store.state.purge (r.storageKey key) solo.next.now } }, ?_, rfl,
    (Solo.poisoned_next solo).trans hsound, State.live_purge ..⟩
  have hasked : solo.call (.request (.get (r.storageKey key))) = _ :=
    congrArg (fun result => (result.1, { solo.next with store := result.2 })) hcall
  unfold Operation.alone Action.run
  rw [Operation.get_calls, Solo.run_call, hasked]
  cases (Rule.get (solo.next.store.state.live solo.next.now (r.storageKey key)) false).1 <;> rfl

/-- **An eviction by a client alone** succeeds, and removes the entry with its trace. -/
theorem evict_alone (hsound : solo.store.poisoned = false)
    (h : Tracks r owned ends solo.now (solo.store.state.live solo.now)) (codec : Codec α) {key : String}
    (hkey : r.storageKey key ≠ r.trackingKey) :
    ∃ after : Solo, (Operation.evict key).alone codec r solo = (.ok none, after) ∧
      after.now = solo.next.now ∧ after.store.poisoned = false ∧
      Tracks r owned ends after.now (after.store.state.live after.now) ∧
      after.store.state.live after.now (r.storageKey key) = none ∧
      ∀ k, k ≠ r.storageKey key → k ≠ r.trackingKey →
        after.store.state.live after.now k = solo.next.store.state.live solo.next.now k := by
  have hkeys : ∀ k ∈ [r.storageKey key], k ≠ r.trackingKey := by simpa using hkey
  obtain ⟨m, hcarries, htracks, hleft, -⟩ := (tracks_next h).removals hkeys
  have hsound₁ : solo.next.store.poisoned = false := (Solo.poisoned_next solo).trans hsound
  have hgood := batch_of_carries hsound₁ (roomless_removals _) hcarries
  obtain ⟨hafter, hcarries'⟩ := batch_of_succeeds hsound₁ hgood
  obtain rfl := hcarries.unique hcarries'
  refine ⟨(solo.call (.request (.batch (r.removals [r.storageKey key])))).2, ?_, rfl, hafter, htracks,
    (hleft _ hkey).trans (by simp), fun k hk htk => (hleft k htk).trans (by simp [hk])⟩
  unfold Operation.alone Action.run
  rw [Operation.evict_calls]
  exact run_finish _ hgood

end WatchedStore.Cache
