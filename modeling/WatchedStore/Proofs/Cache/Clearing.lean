import WatchedStore.Proofs.Cache.Handles
import WatchedStore.Proofs.Clients.Solo
import WatchedStore.Proofs.Memory.Room

/-!
# Clearing a region

A clearing lists the members of the tracking set, and then removes what it has listed. With nobody else
around, a set in order lists every entry that can be seen; between the two calls entries may go, but none
comes. So nothing is left.

**The laws**: a clearing by a client alone leaves no entry that is tracked, and no tracking key
(`clear_alone`). Handles with one expiration never lose track of an entry, whatever they do, and so leave
nothing that a later clearing could miss (`entries_tracked`).
-/

namespace WatchedStore.Cache

open Memory WatchedStore.Action

/-- **An operation of a client that has the store to itself.** -/
def Operation.alone (codec : Codec α) (r : Region) (op : Operation α) (solo : Solo) :
    Except Error (Option α) × Solo :=
  (op.action codec r).run Solo.backend solo

variable {r : Region} {owned : String → Prop} {ends : Option Instant → Prop} {solo : Solo}

theorem tracks_next (h : Tracks r owned ends solo.now (solo.store.state.live solo.now)) :
    Tracks r owned ends solo.next.now (solo.next.store.state.live solo.next.now) := by
  refine Solo.next_keeps (I := fun now s => Tracks r owned ends now (s.state.live now))
    (fun h hle => h.later hle) (fun {now s} h => ?_) h
  rw [live_cleanUp]
  exact h

/-- A batch that succeeds ends an operation. -/
theorem run_finish {commands : List Command} (event : Event)
    (h : succeeds (solo.call (.request (.batch commands))).1 = true) :
    Program.run Solo.backend (Region.finish (α := α) commands event) solo =
      (.ok none, (solo.call (.request (.batch commands))).2) := by
  rw [Region.finish, Solo.run_call]
  generalize solo.call (.request (.batch commands)) = result at h
  obtain ⟨answer, after⟩ := result
  cases answer with
  | error e => cases h
  | ok replies =>
    dsimp only [andThen]
    rw [check_of_succeeds h]
    rfl

theorem roomless_removals (keys : List String) : ∀ c ∈ r.removals keys, c.Roomless := by
  simp only [Region.removals, List.mem_flatMap, List.mem_cons, List.not_mem_nil, or_false]
  rintro c ⟨key, -, rfl | rfl⟩
  · exact Command.roomless_delete key
  · exact Command.roomless_setRemove _ _

/-- Behind a removal nobody finds the time of the tracking set over. -/
theorem not_overdue_removals {keys : List String} {s : State} {max : Nat} {now : Instant}
    (hkeys : keys ≠ []) (h : succeeds (s.applyAll (r.removals keys) max now).1 = true) :
    ¬ (s.applyAll (r.removals keys) max now).2.Overdue r.trackingKey now := by
  induction keys generalizing s with
  | nil => exact absurd rfl hkeys
  | cons k rest ih =>
    rw [Region.removals_cons] at h ⊢
    have hrest := (State.succeeds_cons_iff.mp h).2
    rw [State.applyAll_cons_snd h, State.applyAll_cons_snd hrest]
    cases rest with
    | nil => exact State.not_overdue_setRemove _ _ _ _ _
    | cons k' rest => exact ih (List.cons_ne_nil _ _) (State.succeeds_cons_iff.mp hrest).2

theorem not_overdue_batch {keys : List String} {s : Store} {now : Instant} (hsound : s.poisoned = false)
    (hkeys : keys ≠ []) (h : succeeds (s.request now (.batch (r.removals keys))).1 = true) :
    ¬ (s.request now (.batch (r.removals keys))).2.state.Overdue r.trackingKey now := by
  rw [batch_of_sound hsound] at h ⊢
  exact not_overdue_removals hkeys h

/-- A listing by a client alone. -/
theorem list_alone (hsound : solo.store.poisoned = false)
    (h : Tracks r owned ends solo.now (solo.store.state.live solo.now)) :
    ∃ (keys : List String) (after : Solo),
      solo.call (.request (.setMembers r.trackingKey)) = (.ok (keys.map Bytes.ofText), after) ∧
      solo.now ≤ after.now ∧ after.store.poisoned = false ∧
      Tracks r owned ends after.now (after.store.state.live after.now) ∧
      (∀ k ∈ keys, k ≠ r.trackingKey) ∧
      (∀ x, HasMember (after.store.state.live after.now r.trackingKey) x ↔ x ∈ keys.map Bytes.ofText) ∧
      (keys = [] → after.store.state.entries[r.trackingKey]? = none) := by
  have hnext := tracks_next h
  obtain ⟨keys, hanswer, hkeys, hlists, hnil⟩ := members_of_tracks hnext
  have hcall := setMembers_of_sound ((Solo.poisoned_next solo).trans hsound) r.trackingKey solo.next.now
  rw [hanswer] at hcall
  have hlive := solo.next.store.state.live_purge r.trackingKey solo.next.now
  refine ⟨keys, { solo.next with
      store := { solo.next.store with
        state := solo.next.store.state.purge r.trackingKey solo.next.now } },
    congrArg (fun result => (result.1, { solo.next with store := result.2 })) hcall,
    solo.next_le, (Solo.poisoned_next solo).trans hsound, ?_, hkeys, ?_, fun hempty => ?_⟩
  · exact hlive.symm ▸ hnext
  · exact hlive.symm ▸ hlists
  · exact (State.entries_purge_self ..).trans (hnil hempty)

/-- **A removal of all that is listed**, by a client alone, leaves nothing that is tracked. -/
theorem remove_alone {keys : List String} (hsound : solo.store.poisoned = false)
    (h : Tracks r owned ends solo.now (solo.store.state.live solo.now))
    (hkeys : ∀ k ∈ keys, k ≠ r.trackingKey) (hfilled : keys ≠ [])
    (hlists : ∀ x, HasMember (solo.store.state.live solo.now r.trackingKey) x → x ∈ keys.map Bytes.ofText) :
    let out := solo.call (.request (.batch (r.removals keys)))
    succeeds out.1 = true ∧ out.2.store.poisoned = false ∧
      Tracks r owned ends out.2.now (out.2.store.state.live out.2.now) ∧
      (∀ key, owned key → key ≠ r.trackingKey → out.2.store.state.live out.2.now key = none) ∧
      out.2.store.state.entries[r.trackingKey]? = none := by
  have hnext := tracks_next h
  obtain ⟨m, hcarries, htracks, hleft, hlists'⟩ := hnext.removals hkeys
  have hsound₁ : solo.next.store.poisoned = false := (Solo.poisoned_next solo).trans hsound
  have hgood := batch_of_carries hsound₁ (roomless_removals keys) hcarries
  obtain ⟨hafter, hcarries'⟩ := batch_of_succeeds hsound₁ hgood
  obtain rfl := hcarries.unique hcarries'
  -- what is listed now was listed before, when nothing was missed
  have hearlier : ∀ {x}, HasMember (solo.next.store.state.live solo.next.now r.trackingKey) x →
      x ∈ keys.map Bytes.ofText := by
    intro x hx
    rw [solo.live_next] at hx
    exact hlists x hx.of_filter
  refine ⟨hgood, hafter, htracks, fun key howned hkey => (hleft key hkey).trans ?_, ?_⟩
  · split
    · rfl
    · rename_i hnotin
      refine Option.eq_none_iff_forall_not_mem.mpr fun e he => hnotin ?_
      obtain ⟨k, hk, heq⟩ := List.mem_map.mp (hearlier (hnext.tracked key e howned hkey he).2.1)
      exact Bytes.ofText_injective heq ▸ hk
  · have hgone := htracks.held.eq_none fun x hx =>
      ((hlists' x).mp hx).1 (hearlier ((hlists' x).mp hx).2)
    exact (State.live_of_not_overdue (not_overdue_batch hsound₁ hfilled hgood)).symm.trans hgone

/-- **A clearing by a client alone finds everything.** -/
theorem clear_alone (codec : Codec α) (solo : Solo) (hsound : solo.store.poisoned = false)
    (h : Tracks r owned ends solo.now (solo.store.state.live solo.now)) :
    ∃ after : Solo, (Operation.clear : Operation α).alone codec r solo = (.ok none, after) ∧
      solo.now ≤ after.now ∧ after.store.poisoned = false ∧
      Tracks r owned ends after.now (after.store.state.live after.now) ∧
      (∀ key, owned key → key ≠ r.trackingKey → after.store.state.live after.now key = none) ∧
      after.store.state.entries[r.trackingKey]? = none := by
  obtain ⟨event, hcalls⟩ := Operation.clear_calls (τ := Transaction) codec r
  obtain ⟨keys, listed, hlist, hle, hsound₁, htracks, hkeys, hlists, hnil⟩ := list_alone hsound h
  have hrun : (Operation.clear : Operation α).alone codec r solo =
      Program.run Solo.backend (if (keys.map Bytes.ofText).isEmpty then .done (.ok none)
        else Region.finish (r.removals keys) (event (keys.map Bytes.ofText))) listed := by
    unfold Operation.alone Action.run
    rw [hcalls, Solo.run_call, hlist, ← Region.clearCommands_eq]
    rfl
  rw [hrun]
  by_cases hempty : keys = []
  · subst hempty
    refine ⟨listed, rfl, hle, hsound₁, htracks, fun key howned hkey => ?_, hnil rfl⟩
    refine Option.eq_none_iff_forall_not_mem.mpr fun e he => ?_
    exact absurd ((hlists _).mp (htracks.tracked key e howned hkey he).2.1) List.not_mem_nil
  · obtain ⟨hgood, hafter⟩ := remove_alone hsound₁ htracks hkeys hempty fun x => (hlists x).mp
    have hnot : (keys.map Bytes.ofText).isEmpty = false := by simpa using hempty
    rw [hnot, if_neg Bool.false_ne_true, run_finish _ hgood]
    exact ⟨_, rfl, Nat.le_trans hle listed.next_le, hafter⟩

/-- **No entry is lost track of.** Let any number of handles of one region, with one prefix and one
expiration, put, read, evict and clear, their calls coming in between each other in any order, with time
passing and clean-ups at any place; let the keys that are used not look like the tracking key, which no key
behind a colon does; let the tracking key hold nothing at first, and let all calls succeed, the commands of
their batches included. Of a storage key that held nothing at first, whatever it holds afterwards is a
member of the tracking set, which does not end before it, and has no deadline if the region has no
expiration. A clearing that then has the store to itself succeeds, whatever time passes meanwhile, and
leaves no such entry and no tracking key. -/
theorem entries_tracked {ι α : Type} [DecidableEq ι] {codec : Codec α} {r : Region}
    {operation : ι → Operation α} {sys : System ι (Except Error (Option α))} {t t' : Instant}
    {schedule : List (Instant × Turn ι)}
    (hprogram : ∀ i, sys.program i = ExceptT.run ((operation i).action codec r))
    (hkeys : ∀ i key, (operation i).key? = some key → r.storageKey key ≠ r.trackingKey)
    (hsound : sys.store.poisoned = false) (hnew : sys.store.state.live t r.trackingKey = none)
    (hrun : Ordered t schedule t') (hothers : OnlyCleanUps schedule)
    (hgood : ∀ entry ∈ sys.log schedule, entry.2.succeeds = true) :
    let s := (sys.after schedule).store
    let own := fun key => sys.store.state.live t key = none ∧ key ≠ r.trackingKey
    (r.keyPrefix = some (r.name ++ ":") → ∀ key, r.storageKey key ≠ r.trackingKey) ∧
    (∀ key e, own (r.storageKey key) → s.state.live t' (r.storageKey key) = some e →
      ∃ set until_, s.state.live t' r.trackingKey = some ⟨.members set, until_⟩ ∧
        Bytes.ofText (r.storageKey key) ∈ set ∧ Outlasts until_ e.deadline ∧
        (r.expiration = none → until_ = none)) ∧
    ∀ ahead, ∃ after : Solo,
      (Operation.clear : Operation α).alone codec r ⟨s, t', ahead⟩ = (.ok none, after) ∧
      after.store.state.entries[r.trackingKey]? = none ∧
      ∀ key later, own (r.storageKey key) → after.now ≤ later →
        after.store.state.live later (r.storageKey key) = none := by
  intro s own
  obtain ⟨hsound', htracks⟩ := tracks_after hprogram hkeys hsound hnew hrun hothers hgood
  refine ⟨Region.storageKey_ne_trackingKey, fun key e hown he => ?_, fun ahead => ?_⟩
  · obtain ⟨-, ⟨set, until_, hset, hin⟩, houtlasts⟩ := htracks.tracked _ e hown.1 hown.2 he
    obtain ⟨_, -, hend⟩ := htracks.ended _ hset
    rw [hset] at houtlasts
    refine ⟨set, until_, hset, hin, houtlasts, fun hforever => ?_⟩
    rw [hforever] at hend
    exact hend
  · obtain ⟨after, halone, -, -, -, hgone, hset⟩ :=
      clear_alone codec ⟨s, t', ahead⟩ hsound' htracks
    refine ⟨after, halone, hset, fun key later hown hle => ?_⟩
    rw [State.live_later _ hle, hgone _ hown.1 hown.2]
    rfl

/-- An entry is put while a clearing runs that has listed another one. It stays tracked, and the next
clearing finds it. -/
theorem entries_tracked_meanwhile :
    let r : Region := ⟨"n", some "n:", some (.ofMillis 1)⟩
    let operation : Fin 3 → Operation String
      | 0 => .put "a" "x"
      | 1 => .clear
      | 2 => .put "b" "y"
    let sys : System (Fin 3) (Except Error (Option String)) :=
      { store := { maxEntries := 10 }, program := fun i => ExceptT.run ((operation i).action .text r) }
    let schedule : List (Instant × Turn (Fin 3)) :=
      [(1, .client 0), (2, .client 1), (3, .client 2), (4, .other .cleanUp), (5, .client 1)]
    let s := (sys.after schedule).store
    (∃ set until_, s.state.live 5 "n~keys" = some ⟨.members set, until_⟩ ∧ Bytes.ofText "n:b" ∈ set) ∧
      ∃ after : Solo, (Operation.clear : Operation String).alone .text r ⟨s, 5, []⟩ = (.ok none, after) ∧
        after.store.state.live after.now "n:b" = none := by
  intro r operation sys schedule s
  have hkeys : ∀ i key, (operation i).key? = some key → r.storageKey key ≠ r.trackingKey :=
    fun _ key _ => Region.storageKey_ne_trackingKey rfl key
  have hrun : Ordered 0 schedule 5 := by simp [schedule, Ordered]
  have hothers : OnlyCleanUps schedule := by simp [OnlyCleanUps, schedule]
  have hgood : (sys.log schedule).all (fun entry => entry.2.succeeds) = true := by decide
  obtain ⟨-, htracked, hclear⟩ := entries_tracked (t := 0) (fun _ => rfl) hkeys rfl rfl hrun hothers
    (List.all_eq_true.mp hgood)
  have hown : sys.store.state.live 0 "n:b" = none ∧ "n:b" ≠ "n~keys" := ⟨rfl, by decide⟩
  have hheld : (s.state.live 5 "n:b").isSome = true := by decide
  obtain ⟨e, he⟩ := Option.isSome_iff_exists.mp hheld
  obtain ⟨set, until_, hset, hin, -⟩ := htracked "b" e hown he
  obtain ⟨after, hafter, -, hgone⟩ := hclear []
  exact ⟨⟨set, until_, hset, hin⟩, after, hafter, hgone "b" _ hown (Nat.le_refl _)⟩

end WatchedStore.Cache
