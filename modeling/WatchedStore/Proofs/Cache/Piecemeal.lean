import WatchedStore.Proofs.Cache.Clearing
import WatchedStore.Proofs.Cache.Pieces

/-!
# Pipelines that are not atomic

A store that carries out one command at a time may store and list an entry between the two commands of a
removal: the removal then takes the new entry's key off the list, and no clearing finds the entry any more
(`entries_lost`). Nothing else can go wrong.

**The law** (`entries_tracked_piecemeal`): once nobody is in the middle of an operation, an entry that is
seen is listed, or it was stored and listed between the removal of its key and the key's being taken off the
list, both by one client.

What is known of a store are the commands that came last (`Lastly`): an entry that is seen was last stored,
not removed; a key that was last added, not taken off, is listed. The order of each client's own commands
does the rest.
-/

namespace WatchedStore.Cache

open Memory WatchedStore.Action

/-! ## What came last -/

/-- **Whether a command of one kind came after all commands of another.** -/
def Lastly {ι : Type} (p q : Command → Prop) (all : List (ι × Command)) : Prop :=
  ∃ before i c after, all = before ++ (i, c) :: after ∧ p c ∧ ∀ entry ∈ after, ¬ q entry.2

theorem lastly_snoc {ι : Type} {p q : Command → Prop} {all : List (ι × Command)} {i : ι} {c : Command} :
    Lastly p q (all ++ [(i, c)]) ↔ p c ∨ Lastly p q all ∧ ¬ q c := by
  constructor
  · rintro ⟨before, j, d, after, heq, hp, hq⟩
    rcases List.eq_nil_or_concat after with rfl | ⟨after, last, rfl⟩
    · obtain ⟨-, hlast⟩ := List.append_inj' heq rfl
      cases hlast
      exact .inl hp
    · rw [List.concat_eq_append, ← List.cons_append, ← List.append_assoc] at heq
      obtain ⟨rfl, hlast⟩ := List.append_inj' heq rfl
      cases hlast
      rw [List.concat_eq_append] at hq
      obtain ⟨hafter, hlast⟩ := List.forall_mem_append.mp hq
      exact .inr ⟨⟨before, j, d, after, rfl, hp, hafter⟩, hlast _ (List.mem_singleton_self _)⟩
  · rintro (hp | ⟨⟨before, j, d, after, rfl, hp, hq⟩, hlast⟩)
    · exact ⟨all, i, c, [], rfl, hp, fun _ h => absurd h List.not_mem_nil⟩
    · refine ⟨before, j, d, after ++ [(i, c)], by simp, hp, List.forall_mem_append.mpr ⟨hq, ?_⟩⟩
      exact List.forall_mem_singleton.mpr hlast

/-- **What is stored last is listed last**, or another client's removal came between: its removal of the key
before, and its taking it off the list afterwards. -/
theorem lastly_listed {ι : Type} [DecidableEq ι] {r : Region} {all : List (ι × Command)}
    (hinOrder : ∀ i, InOrder r (commandsBy i all)) {k : String}
    (hstored : Lastly (fun c => ∃ value, c = .set k value none) (· = .delete k) all) :
    Lastly (· = .setAdd r.trackingKey (Bytes.ofText k)) (· = .setRemove r.trackingKey (Bytes.ofText k)) all ∨
      ∃ i j value, [(i, .delete k), (j, .set k value none), (j, .setAdd r.trackingKey (Bytes.ofText k)),
        (i, .setRemove r.trackingKey (Bytes.ofText k))].Sublist all := by
  obtain ⟨before, j, _, after, hall, ⟨value, rfl⟩, hafter⟩ := hstored
  have hadded : (j, Command.setAdd r.trackingKey (Bytes.ofText k)) ∈ after := by
    refine mem_commandsBy j |>.mp ((hinOrder j).listed (commandsBy j before) k value _ ?_)
    rw [hall, commandsBy_append, commandsBy_cons_self]
  obtain ⟨between, late, rfl⟩ := List.append_of_mem hadded
  by_cases hoff : ∃ i, (i, Command.setRemove r.trackingKey (Bytes.ofText k)) ∈ late
  · obtain ⟨i, hoff⟩ := hoff
    obtain ⟨late, rest, rfl⟩ := List.append_of_mem hoff
    have hremoved : (i, Command.delete k) ∈ before ++ (j, .set k value none) ::
        (between ++ (j, .setAdd r.trackingKey (Bytes.ofText k)) :: late) := by
      refine mem_commandsBy i |>.mp ((hinOrder i).removed _ k (commandsBy i rest) ?_)
      rw [hall, ← commandsBy_cons_self, ← commandsBy_append]
      simp
    -- nothing removes the key once it is stored, so it was removed before
    have hbefore : (i, Command.delete k) ∈ before := by
      simp only [List.mem_append, List.mem_cons, Prod.mk.injEq, reduceCtorEq, and_false, false_or]
        at hremoved
      rcases hremoved with hbefore | hbetween | hlate
      · exact hbefore
      · exact absurd rfl (hafter _ (List.mem_append_left _ hbetween))
      · exact absurd rfl
          (hafter _ (List.mem_append_right _ (List.mem_cons_of_mem _ (List.mem_append_left _ hlate))))
    refine .inr ⟨i, j, value, ?_⟩
    rw [hall]
    have hlast := (List.nil_sublist late).append
      (List.Sublist.cons_cons (i, Command.setRemove r.trackingKey (Bytes.ofText k)) (List.nil_sublist rest))
    have hmiddle := (List.nil_sublist between).append
      (hlast.cons_cons (j, Command.setAdd r.trackingKey (Bytes.ofText k)))
    exact (List.singleton_sublist.mpr hbefore).append (hmiddle.cons_cons (j, Command.set k value none))
  · refine .inl ⟨before ++ (j, .set k value none) :: between, j, _, late, by simp [hall], rfl, ?_⟩
    exact fun entry hentry heq => hoff ⟨entry.1, heq ▸ hentry⟩

variable {ι α : Type} {r : Region} {owned : String → Prop} {now t t' : Instant} {s : Store}

/-- **A store that shows what came last**: a key in `owned` that is seen was stored after it was removed,
and a key that was added after it was taken off is listed. -/
structure ShowsLast (r : Region) (owned : String → Prop) (all : List (ι × Command)) (now : Instant)
    (s : Store) : Prop where
  sound : s.poisoned = false
  set : KeepsKeys r now (s.state.live now)
  stored : ∀ k, owned k → k ≠ r.trackingKey → s.state.live now k ≠ none →
    Lastly (fun c => ∃ value, c = .set k value none) (· = .delete k) all
  listed : ∀ k, Lastly (· = .setAdd r.trackingKey (Bytes.ofText k))
      (· = .setRemove r.trackingKey (Bytes.ofText k)) all →
    HasMember (s.state.live now r.trackingKey) (Bytes.ofText k)

namespace ShowsLast

variable {all : List (ι × Command)}

theorem of_live {s' : Store} (h : ShowsLast r owned all now s) (hsound : s'.poisoned = false)
    (hlive : s'.state.live now = s.state.live now) : ShowsLast r owned all now s' where
  sound := hsound
  set := hlive ▸ h.set
  stored := hlive ▸ h.stored
  listed := hlive ▸ h.listed

theorem later {later : Instant} (h : ShowsLast r owned all now s) (hle : now ≤ later) :
    ShowsLast r owned all later s where
  sound := h.sound
  set := h.set.later hle
  stored k howned hk hheld := by
    refine h.stored k howned hk fun hnone => hheld ?_
    rw [s.state.live_later hle, hnone]
    rfl
  listed k hk := by
    obtain ⟨set, until_, hset, hin⟩ := h.listed k hk
    have hforever : until_ = none := h.set.ended _ hset
    refine ⟨set, until_, ?_, hin⟩
    rw [s.state.live_later hle, hset, hforever]
    rfl

/-- **The store shows the next command, too.** -/
theorem piece {c : Command} {i : ι} (h : ShowsLast r owned all now s) (hc : r.Piece c)
    (hgood : succeeds (s.request now (.batch [c])).1 = true) :
    ShowsLast r owned (all ++ [(i, c)]) now (s.request now (.batch [c])).2 := by
  obtain ⟨hsound, hcarries⟩ := batch_of_succeeds h.sound hgood
  obtain _ | ⟨-, hcarries⟩ := hcarries
  generalize hm : (s.request now (.batch [c])).2.state.live now = m at hcarries
  obtain _ | _ := hcarries
  refine ⟨hsound, hm ▸ hc.keeps h.set, fun k howned hk hheld => ?_, fun k hk => ?_⟩
  · rw [hm] at hheld
    refine lastly_snoc.mpr ((hc.stored hk hheld).imp_right fun ⟨hbefore, hne⟩ => ?_)
    exact ⟨h.stored k howned hk hbefore, hne⟩
  · rw [hm]
    refine hc.listed h.set ((lastly_snoc.mp hk).imp_right fun ⟨hbefore, hne⟩ => ?_)
    exact ⟨h.listed k hbefore, hne⟩

end ShowsLast

/-- **Handles rely on one another** for a tracking set of keys, also command by command. -/
theorem reliable_piecemeal (ι : Type) (r : Region) (owned : String → Prop) :
    Reliable (ι := ι) r.AsksPiecemeal r.Told fun log => ShowsLast r owned (commandsOf log) where
  wait h hle := h.later hle
  cleanUp {_ now s} h := h.of_live ((poisoned_cleanUp s now).trans h.sound) (live_cleanUp s now)
  call {log now s} i c h hc hgood := by
    rw [commandsOf_snoc]
    cases hc with
    | members =>
      obtain ⟨keys, hanswer, hkeys, -⟩ := members_of_tracks h.set
      rw [Store.call, setMembers_of_sound h.sound, hanswer]
      refine ⟨?_, fun _ => ⟨keys, hkeys, rfl⟩⟩
      have hnone : (⟨now, s, .request (.setMembers r.trackingKey)⟩ : Visit).commands = [] := rfl
      rw [hnone, List.map_nil, List.append_nil]
      exact h.of_live h.sound (s.state.live_purge r.trackingKey now)
    | get key =>
      rw [Store.call, get_of_sound h.sound]
      refine ⟨?_, trivial⟩
      have hnone : (⟨now, s, .request (.get key)⟩ : Visit).commands = [] := rfl
      rw [hnone, List.map_nil, List.append_nil]
      exact h.of_live h.sound (s.state.live_purge key now)
    | piece hc => exact ⟨h.piece hc hgood, trivial⟩

/-- **Once nobody is in the middle of an operation, an entry is listed, or it came between.** Let any number
of clients put, read, evict and clear in a region without expiration, over a store that carries out one
command at a time, so that the commands of different clients come in any order, with time passing and
clean-ups at any place; let the keys that are used not look like the tracking key, let the tracking key hold
nothing at first, let all calls succeed, and let every client that has made a call have ended. If a storage
key that held nothing at first is seen then, it is a member of the tracking set; or some client has removed
the key, another one has stored it then and listed it, and then the first one has taken it off the list. -/
theorem entries_tracked_piecemeal [DecidableEq ι] {codec : Codec α} {operation : ι → Operation α}
    {sys : System ι (Except Error (Option α))} {schedule : List (Instant × Turn ι)}
    (hprogram : ∀ i, sys.program i = (ExceptT.run ((operation i).action codec r)).piecemeal)
    (hforever : r.expiration = none)
    (hkeys : ∀ i key, (operation i).key? = some key → r.storageKey key ≠ r.trackingKey)
    (hsound : sys.store.poisoned = false) (hnew : sys.store.state.live t r.trackingKey = none)
    (hrun : Ordered t schedule t') (hothers : OnlyCleanUps schedule)
    (hgood : ∀ entry ∈ sys.log schedule, entry.2.succeeds = true)
    (hdone : ∀ entry ∈ sys.log schedule, ∃ result, (sys.after schedule).program entry.1 = .done result)
    (key : String) (hown : sys.store.state.live t (r.storageKey key) = none)
    (hkey : r.storageKey key ≠ r.trackingKey)
    (hheld : (sys.after schedule).store.state.live t' (r.storageKey key) ≠ none) :
    let k := r.storageKey key
    let member := Bytes.ofText k
    HasMember ((sys.after schedule).store.state.live t' r.trackingKey) member ∨
      ∃ i j value, [(i, .delete k), (j, .set k value none), (j, .setAdd r.trackingKey member),
        (i, .setRemove r.trackingKey member)].Sublist (sys.commands schedule) := by
  intro k member
  have hstart : ShowsLast r (fun k => sys.store.state.live t k = none) (commandsOf ([] : List (ι × Visit))) t
      sys.store := by
    refine ⟨hsound, ?_, fun k howned _ hheld => absurd howned hheld, fun k hk => ?_⟩
    · have hset := tracks_of_new hnew (· = none)
      exact ⟨hset.current, hset.held, hset.ended, hset.listed, fun _ _ howned => howned.elim⟩
    · obtain ⟨before, _, _, _, heq, -⟩ := hk
      cases before <;> cases heq
  have hshows := System.relies_invariant [] (reliable_piecemeal ι r _) hrun hothers
    (fun i => hprogram i ▸ (operation i).relies_piecemeal codec hforever (hkeys i)) hgood hstart
  rw [List.nil_append] at hshows
  have hinOrder : ∀ i, InOrder r (commandsBy i (sys.commands schedule)) := by
    intro i
    rw [System.commands, commandsBy_commandsOf]
    cases hvisits : System.ofClient i (sys.log schedule) with
    | nil => exact inOrder_nil
    | cons v rest =>
      have hmem : ∀ v' ∈ v :: rest, (i, v') ∈ sys.log schedule := fun v' hv' =>
        mem_ofClient.mp (hvisits ▸ hv')
      obtain ⟨result, hresult⟩ := hdone (i, v) (hmem v List.mem_cons_self)
      have hcourse := sys.course i hrun
      rw [hresult, hprogram, System.visits, hvisits] at hcourse
      exact Operation.inOrder hforever hcourse fun v' hv' => hgood _ (hmem v' hv')
  exact (lastly_listed hinOrder (hshows.stored k hown hkey hheld)).imp_left (hshows.listed k)

/-- A key is put twice and cleared, by three clients of a region without expiration. -/
def clash : System (Fin 3) (Except Error (Option String)) where
  store := { maxEntries := 10 }
  program i :=
    let operation : Operation String := match i with
      | 0 => .put "a" "x"
      | 1 => .clear
      | 2 => .put "a" "y"
    (ExceptT.run (operation.action .text ⟨"n", some "n:", none⟩)).piecemeal

/-- The second put comes when the clearing has removed the first entry, and not yet taken its key off the
list. -/
def clashing : List (Instant × Turn (Fin 3)) :=
  [0, 0, 0, 1, 1, 2, 2, 2, 1, 1].map fun i => (0, .client i)

theorem clash_done : ∀ i, ∃ result, (clash.after clashing).program i = .done result
  | 0 => ⟨_, rfl⟩
  | 1 => ⟨_, rfl⟩
  | 2 => ⟨_, rfl⟩

/-- The entry is not listed, so something has come between. -/
theorem entries_tracked_piecemeal_clash :
    ∃ i j value, [(i, Command.delete "n:a"), (j, .set "n:a" value none),
      (j, .setAdd "n~keys" (Bytes.ofText "n:a")), (i, .setRemove "n~keys" (Bytes.ofText "n:a"))].Sublist
        (clash.commands clashing) := by
  have hgood : (clash.log clashing).all (fun entry => entry.2.succeeds) = true := by decide +kernel
  have hheld : ((clash.after clashing).store.state.live 0 "n:a").isSome = true := by decide +kernel
  have hunlisted : ((clash.after clashing).store.state.live 0 "n~keys").isNone = true := by decide +kernel
  refine (entries_tracked_piecemeal (r := ⟨"n", some "n:", none⟩) (t := 0) (fun _ => rfl) rfl
    (fun _ key _ => Region.storageKey_ne_trackingKey rfl key) rfl rfl (by simp [clashing, Ordered])
    (by simp [OnlyCleanUps, clashing]) (List.all_eq_true.mp hgood) (fun entry _ => clash_done entry.1)
    "a" rfl (by decide) (Option.isSome_iff_ne_none.mp hheld)).resolve_left ?_
  rintro ⟨set, until_, hset, -⟩
  cases (Option.isNone_iff_eq_none.mp hunlisted).symm.trans hset

/-- **A clearing loses an entry that is put meanwhile.** All calls have succeeded and all clients have
ended; the second entry is there, the tracking set is not, and another clearing leaves the entry to be
read. -/
theorem entries_lost :
    let r : Region := ⟨"n", some "n:", none⟩
    let s := (clash.after clashing).store
    let cleared := ((Operation.clear : Operation String).alone .text r ⟨s, 0, []⟩).2
    (clash.log clashing).all (fun entry => entry.2.succeeds) = true ∧
      (∀ i, ∃ result, (clash.after clashing).program i = .done result) ∧
      (s.state.live 0 r.trackingKey).isNone = true ∧
      ((Operation.get "a").alone .text r cleared).1 = .ok (some "y") :=
  ⟨by decide +kernel, clash_done, by decide +kernel, by decide +kernel⟩

end WatchedStore.Cache
