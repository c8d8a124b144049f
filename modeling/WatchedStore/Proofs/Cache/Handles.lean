import WatchedStore.Proofs.Cache.Territory
import WatchedStore.Proofs.Cache.Tracking

/-!
# Handles of a region

Whatever a handle does with its region, it makes calls of four kinds (`Asks`). That the last kind, a removal
in a clearing, is about keys other than the tracking key rests on what the clearing was told before: that
the members are keys (`Told`). Each handle relies on that, and all of them make it so.

**The step law** (`Asks.keeps`): a call that a handle makes, and that succeeds, keeps the tracking set in
order. **The run law** (`tracks_after`): so does any schedule of handles with the same expiration.
-/

namespace WatchedStore.Cache

open Memory WatchedStore.Action

namespace Region

/-- **The calls that handles of a region make**, for keys that do not look like the tracking key. -/
inductive Asks (r : Region) : Call Transaction → Prop
  | members : Asks r (.request (.setMembers r.trackingKey))
  | get (key : String) : Asks r (.request (.get key))
  | put (key : String) (json : Bytes) (h : r.storageKey key ≠ r.trackingKey) :
    Asks r (.request (.batch (r.putCommands key json)))
  | remove (keys : List String) (h : ∀ k ∈ keys, k ≠ r.trackingKey) :
    Asks r (.request (.batch (r.removals keys)))

/-- What a handle is told about the tracking set: that its members are keys, and which. -/
def Told (r : Region) : (c : Call Transaction) → Except Error c.Answer → Prop
  | .request (.setMembers key), .ok members => key = r.trackingKey →
    ∃ keys : List String, (∀ k ∈ keys, k ≠ r.trackingKey) ∧ members = keys.map Bytes.ofText
  | _, _ => True

end Region

open Region

variable {r : Region} {now : Instant}

theorem Region.Makes.asks {c : Call Transaction}
    (h : r.Makes (· ≠ r.trackingKey) (· ≠ r.trackingKey) c) : r.Asks c := by
  cases h with
  | members => exact .members
  | get key => exact .get _
  | put key json hkey => exact .put key json hkey
  | remove keys hkeys => exact .remove keys hkeys

/-- **What a handle does relies on what it is told.** -/
theorem Operation.relies {α : Type} (codec : Codec α) (r : Region) (op : Operation α)
    (hkey : ∀ key, op.key? = some key → r.storageKey key ≠ r.trackingKey) :
    Relies r.Asks r.Told (ExceptT.run (op.action codec r)) := by
  refine (op.makes codec r (fun key value hop => hkey key ?_) fun key hop => hkey key ?_).mono
    (fun _ => Makes.asks) fun _ _ h => h
  · rw [hop, key?]
  · rw [hop, key?]

/-! ## One call -/

section Calls

variable {owned : String → Prop} {ends : Option Instant → Prop} {s : Store}

/-- **The members that are listed are keys**, and each member is listed. -/
theorem members_of_tracks {m : Contents} (h : Tracks r owned ends now m) :
    ∃ keys : List String, (Rule.setMembers (m r.trackingKey) false).1 = .ok (keys.map Bytes.ofText) ∧
      (∀ k ∈ keys, k ≠ r.trackingKey) ∧
      (∀ x, HasMember (m r.trackingKey) x ↔ x ∈ keys.map Bytes.ofText) ∧
      (keys = [] → m r.trackingKey = none) := by
  cases he : m r.trackingKey with
  | none => exact ⟨[], rfl, by simp, by simp, fun _ => rfl⟩
  | some e =>
    obtain ⟨set, hvalue, hfilled⟩ := h.held e he
    obtain ⟨_, until_⟩ := e
    cases hvalue
    obtain ⟨keys, hkeys, hlist⟩ : ∃ keys : List String, (∀ k ∈ keys, k ≠ r.trackingKey) ∧
        set.toList = keys.map Bytes.ofText := exists_keys fun x hx =>
      h.listed x ⟨set, until_, he, Std.ExtTreeSet.mem_toList.mp hx⟩
    refine ⟨keys, by rw [← hlist]; rfl, hkeys, fun x => ?_, fun hnil => ?_⟩
    · rw [← hlist, Std.ExtTreeSet.mem_toList]
      exact hasMember_members
    · have hempty : set = ∅ := Std.ExtTreeSet.toList_eq_nil_iff.mp (by rw [hlist, hnil, List.map_nil])
      exact absurd hempty (Std.ExtTreeSet.isEmpty_eq_false_iff.mp hfilled)

/-- **A call of a handle that succeeds keeps the tracking set in order**, if a put ends when it may. -/
theorem Region.Asks.keeps {c : Call Transaction} (hc : r.Asks c) (hsound : s.poisoned = false)
    (h : Tracks r owned ends now (s.state.live now))
    (hends : ∀ until_, State.deadline r.expiration now = .ok until_ →
      ∀ d, ends d → GivesWay now d until_)
    (hgood : c.succeeds (s.call now c).1 = true) :
    (s.call now c).2.poisoned = false ∧
      Tracks r owned (fun d => ends d ∨ State.deadline r.expiration now = .ok d) now
        ((s.call now c).2.state.live now) ∧
      r.Told c (s.call now c).1 := by
  have hsame : Tracks r owned (fun d => ends d ∨ State.deadline r.expiration now = .ok d) now
      (s.state.live now) := h.mono fun _ => .inl
  cases hc with
  | get key =>
    rw [Store.call, get_of_sound hsound]
    refine ⟨hsound, ?_, trivial⟩
    rw [State.live_purge]
    exact hsame
  | members =>
    obtain ⟨keys, hanswer, hkeys, -⟩ := members_of_tracks h
    rw [Store.call, setMembers_of_sound hsound, hanswer]
    refine ⟨hsound, ?_, fun _ => ⟨keys, hkeys, rfl⟩⟩
    rw [State.live_purge]
    exact hsame
  | put key json hkey =>
    obtain ⟨hafter, hcarries⟩ := batch_of_succeeds hsound hgood
    exact ⟨hafter, h.put hkey hcarries hends, trivial⟩
  | remove keys hkeys =>
    obtain ⟨hafter, hcarries⟩ := batch_of_succeeds hsound hgood
    obtain ⟨m', hcarries', h', -⟩ := hsame.removals hkeys
    exact ⟨hafter, hcarries'.unique hcarries ▸ h', trivial⟩

end Calls

/-! ## Many calls -/

/-- The ends that puts of a region have set up to a reading of the clock. -/
def Region.ends (r : Region) (now : Instant) (d : Option Instant) : Prop :=
  ∃ t ≤ now, d = r.expiration.map fun ttl => t + ttl.nanoseconds

theorem eq_of_deadline {ttl : Option Duration} {until_ : Option Instant}
    (h : State.deadline ttl now = .ok until_) : until_ = ttl.map fun d => now + d.nanoseconds := by
  unfold State.deadline at h
  cases ttl with
  | none => exact (Except.ok.inj h).symm
  | some d =>
    dsimp only at h
    cases hafter : Instant.after? now d with
    | none =>
      rw [hafter] at h
      cases h
    | some t =>
      rw [hafter] at h
      cases h
      unfold Instant.after? at hafter
      split at hafter
      · exact hafter.symm
      · cases hafter

/-- With one expiration for all puts, the ends come in the order of the puts. -/
theorem Region.ends_giveWay {d until_ : Option Instant} (h : r.ends now d)
    (hdeadline : State.deadline r.expiration now = .ok until_) : GivesWay now d until_ := by
  obtain ⟨t, hle, rfl⟩ := h
  rw [eq_of_deadline hdeadline]
  cases r.expiration with
  | none => exact .forever
  | some ttl => exact .later (Nat.add_le_add_right hle _)

theorem Region.ends_later {later : Instant} {d : Option Instant} (h : r.ends now d) (hle : now ≤ later) :
    r.ends later d := by
  obtain ⟨t, ht, hd⟩ := h
  exact ⟨t, Nat.le_trans ht hle, hd⟩

theorem Region.ends_of_deadline {d : Option Instant} (h : State.deadline r.expiration now = .ok d) :
    r.ends now d := ⟨now, Nat.le_refl now, eq_of_deadline h⟩

/-- **A region's handles rely on one another** for a tracking set in order. -/
theorem reliable (ι : Type) (r : Region) (owned : String → Prop) :
    Reliable (ι := ι) r.Asks r.Told fun _ now s =>
      s.poisoned = false ∧ Tracks r owned (r.ends now) now (s.state.live now) where
  wait h hle := ⟨h.1, (h.2.later hle).mono fun _ hd => r.ends_later hd hle⟩
  cleanUp h := by
    rw [poisoned_cleanUp, live_cleanUp]
    exact h
  call i _ h hc hgood := by
    obtain ⟨hsound, htracks⟩ := h
    obtain ⟨hafter, hnext, htold⟩ := hc.keeps hsound htracks
      (fun _ hdeadline _ hd => r.ends_giveWay hd hdeadline) hgood
    exact ⟨⟨hafter, hnext.mono fun _ hd => hd.elim id r.ends_of_deadline⟩, htold⟩

/-- A region that has written nothing yet has its tracking set in order. -/
theorem tracks_of_new {s : State} (h : s.live now r.trackingKey = none) (ends : Option Instant → Prop) :
    Tracks r (fun key => s.live now key = none) ends now (s.live now) where
  current := s.live_current now
  held e he := by simp [h] at he
  ended e he := by simp [h] at he
  listed x hx := by
    obtain ⟨_, _, hx, -⟩ := hx
    simp [h] at hx
  tracked key e howned _ he := by
    rw [howned] at he
    cases he

/-- **Any number of handles with one expiration keep the tracking set in order**, whatever they do and
however their calls come in between each other. -/
theorem tracks_after {ι α : Type} [DecidableEq ι] {codec : Codec α} {operation : ι → Operation α}
    {sys : System ι (Except Error (Option α))} {t t' : Instant} {schedule : List (Instant × Turn ι)}
    (hprogram : ∀ i, sys.program i = ExceptT.run ((operation i).action codec r))
    (hkeys : ∀ i key, (operation i).key? = some key → r.storageKey key ≠ r.trackingKey)
    (hsound : sys.store.poisoned = false) (hnew : sys.store.state.live t r.trackingKey = none)
    (hrun : Ordered t schedule t') (hothers : OnlyCleanUps schedule)
    (hgood : ∀ entry ∈ sys.log schedule, entry.2.succeeds = true) :
    (sys.after schedule).store.poisoned = false ∧
      Tracks r (fun key => sys.store.state.live t key = none) (r.ends t') t'
        ((sys.after schedule).store.state.live t') := by
  refine System.relies_invariant [] (reliable ι r _) hrun hothers (fun i => ?_) hgood
    ⟨hsound, tracks_of_new hnew _⟩
  rw [hprogram]
  exact (operation i).relies codec r (hkeys i)

end WatchedStore.Cache
