import WatchedStore.Proofs.Cache.Operation
import WatchedStore.Proofs.Memory.Effect

/-!
# The tracking set of a region

A region tracks the storage keys of its entries in one set, which has one deadline, while each entry has
its own. `Tracks` says what the set has to be for a clearing to find all entries: each entry that can be
seen is listed, and the set does not end before it.

**The step laws**: time takes the entries first and the set last (`Tracks.later`). A put keeps the set in
order if every end so far gives way to its own (`Tracks.put`): it is over, or not after it. A removal of
entries with their traces always keeps the set in order, whichever keys it is about (`Tracks.removals`).
-/

namespace WatchedStore.Cache

open Memory

/-- Whether one deadline is not before another. None is after all. -/
def Outlasts (d e : Option Instant) : Prop := ∀ a, d = some a → ∃ b, e = some b ∧ b ≤ a

/-- **An end that gives way to another one** set at some reading: it is over by then, or the other one is
not before it. Lives that end and lives for good do not give way to one another. -/
inductive GivesWay (now : Instant) : Option Instant → Option Instant → Prop
  | past {a : Instant} {e : Option Instant} (h : a ≤ now) : GivesWay now (some a) e
  | forever : GivesWay now none none
  | later {a b : Instant} (h : a ≤ b) : GivesWay now (some a) (some b)

instance (now : Instant) : (d e : Option Instant) → Decidable (GivesWay now d e)
  | none, none => isTrue .forever
  | none, some _ => isFalse fun h => nomatch h
  | some a, none =>
    if hover : a ≤ now then isTrue (.past hover)
    else isFalse fun | .past h => hover h
  | some a, some b =>
    if hover : a ≤ now then isTrue (.past hover)
    else if hlater : a ≤ b then isTrue (.later hlater)
    else isFalse fun
      | .past h => hover h
      | .later h => hlater h

/-- **A tracking set in order**: a set with members or nothing; its members are keys, and none is its own;
and of the keys in `owned` it lists each that holds an entry, and lives at least as long. All lives end as
`ends` says. -/
structure Tracks (r : Region) (owned : String → Prop) (ends : Option Instant → Prop) (now : Instant)
    (m : Contents) : Prop where
  current : Current now m
  held : HoldsMembers (m r.trackingKey)
  ended : ∀ e, m r.trackingKey = some e → ends e.deadline
  listed : ∀ x, HasMember (m r.trackingKey) x → ∃ key, key ≠ r.trackingKey ∧ x = Bytes.ofText key
  tracked : ∀ key e, owned key → key ≠ r.trackingKey → m key = some e →
    ends e.deadline ∧ HasMember (m r.trackingKey) (Bytes.ofText key) ∧
      Outlasts ((m r.trackingKey).bind Entry.deadline) e.deadline

theorem Outlasts.refl (d : Option Instant) : Outlasts d d := fun a h => ⟨a, h, Nat.le_refl a⟩

theorem Outlasts.not_expired {d e : Entry} {now : Instant} (h : Outlasts d.deadline e.deadline)
    (he : e.isExpired now = false) : d.isExpired now = false := by
  unfold Entry.isExpired at he ⊢
  cases hd : d.deadline with
  | none => rfl
  | some a =>
    obtain ⟨b, hb, hle⟩ := h a hd
    simp only [hb, decide_eq_false_iff_not] at he ⊢
    exact fun hover => he (Nat.le_trans hle hover)

/-- What gives way and is not over yet ends in time. -/
theorem GivesWay.outlasts {e : Entry} {until_ : Option Instant} {now : Instant}
    (h : GivesWay now e.deadline until_) (he : e.isExpired now = false) :
    Outlasts until_ e.deadline ∧ (until_ = none → e.deadline = none) := by
  unfold Entry.isExpired at he
  generalize e.deadline = d at h he
  cases h with
  | past hle => exact absurd hle (of_decide_eq_false he)
  | forever => exact ⟨.refl none, fun _ => rfl⟩
  | @later a b hle =>
    refine ⟨fun _ hb => ?_, fun h => (nomatch h)⟩
    cases hb
    exact ⟨a, rfl, hle⟩

namespace Tracks

variable {r : Region} {owned : String → Prop} {ends : Option Instant → Prop} {now t : Instant}
  {m m' : Contents}

theorem mono {ends' : Option Instant → Prop} (h : Tracks r owned ends now m)
    (hends : ∀ d, ends d → ends' d) : Tracks r owned ends' now m where
  current := h.current
  held := h.held
  ended e he := hends _ (h.ended e he)
  listed := h.listed
  tracked key e howned hkey he :=
    let ⟨hend, hrest⟩ := h.tracked key e howned hkey he
    ⟨hends _ hend, hrest⟩

/-- **As time passes, the set is the last to go.** -/
theorem later {s : State} (h : Tracks r owned ends now (s.live now)) (hle : now ≤ t) :
    Tracks r owned ends t (s.live t) := by
  have hbefore : ∀ {key e}, s.live t key = some e → s.live now key = some e := by
    intro key e he
    rw [s.live_later hle] at he
    exact (Option.filter_eq_some_iff.mp he).1
  have hlists : ∀ {x}, HasMember (s.live t r.trackingKey) x → HasMember (s.live now r.trackingKey) x :=
    fun ⟨set, until_, hset, hx⟩ => ⟨set, until_, hbefore hset, hx⟩
  refine ⟨s.live_current t, fun e he => h.held e (hbefore he), fun e he => h.ended e (hbefore he),
    fun x hx => h.listed x (hlists hx), fun key e howned hkey he => ?_⟩
  obtain ⟨hend, ⟨set, until_, hset, hin⟩, houtlasts⟩ := h.tracked key e howned hkey (hbefore he)
  -- an entry that is still there keeps the set from having gone
  have hstill : s.live t r.trackingKey = some ⟨.members set, until_⟩ := by
    rw [hset] at houtlasts
    have hnot : (⟨.members set, until_⟩ : Entry).isExpired t = false :=
      Outlasts.not_expired houtlasts (s.live_current t key e he)
    rw [s.live_later hle, hset, Option.filter_some, hnot]
    rfl
  rw [hstill]
  rw [hset] at houtlasts
  exact ⟨hend, ⟨set, until_, rfl, hin⟩, houtlasts⟩

/-- An entry is stored, and its key listed in a set that has the deadline that it had. -/
theorem carries_track {rest : List Command} {k : String} {value : Bytes} {ttl : Option Duration}
    (h : Tracks r owned ends now m) (hk : k ≠ r.trackingKey)
    (hc : Carries now (.set k value ttl :: .setAdd r.trackingKey (Bytes.ofText k) :: rest) m m') :
    ∃ until_ set m₁, State.deadline ttl now = .ok until_ ∧ Carries now rest m₁ m' ∧
      m₁ k = (some ⟨.bytes value, until_⟩).filter (!·.isExpired now) ∧
      m₁ r.trackingKey = some ⟨.members set, (m r.trackingKey).bind Entry.deadline⟩ ∧
      (∀ x, x ∈ set ↔ x = Bytes.ofText k ∨ HasMember (m r.trackingKey) x) ∧
      ∀ k', k' ≠ k → k' ≠ r.trackingKey → m₁ k' = m k' := by
  obtain _ | ⟨hset, hc⟩ := hc
  obtain _ | ⟨-, hc⟩ := hc
  obtain ⟨until_, hdeadline, hentry⟩ := Command.leaves_set hset
  have hsame : (Command.set k value ttl).carry now m r.trackingKey = m r.trackingKey :=
    Command.carry_of_ne (Ne.symm hk)
  obtain ⟨-, set, hleaves, hmem⟩ := Command.leaves_setAdd r.trackingKey (Bytes.ofText k) h.held
    (h.current r.trackingKey)
  refine ⟨until_, set, _, hdeadline, hc, ?_, ?_, hmem, fun k' hk' htk => ?_⟩
  · rw [Command.carry_of_ne hk]
    exact Command.carry_self.trans hentry
  · exact Command.carry_self.trans ((congrArg _ hsame).trans hleaves)
  · rw [Command.carry_of_ne htk, Command.carry_of_ne hk']

/-- **What a put leaves**: the entry, and the set with its key; both end when the put says. -/
theorem carries_put {key : String} {json : Bytes} (h : Tracks r owned ends now m)
    (hkey : r.storageKey key ≠ r.trackingKey) (hc : Carries now (r.putCommands key json) m m')
    (hends : ∀ until_, State.deadline r.expiration now = .ok until_ →
      ∀ d, ends d → GivesWay now d until_) :
    ∃ until_ set, State.deadline r.expiration now = .ok until_ ∧
      m' (r.storageKey key) = (some ⟨.bytes json, until_⟩).filter (!·.isExpired now) ∧
      m' r.trackingKey = (some ⟨.members set, until_⟩).filter (!·.isExpired now) ∧
      (∀ x, x ∈ set ↔ x = Bytes.ofText (r.storageKey key) ∨ HasMember (m r.trackingKey) x) ∧
      ∀ k, k ≠ r.storageKey key → k ≠ r.trackingKey → m' k = m k := by
  obtain ⟨until_, set, m₁, hdeadline, hrest, hentry, hset, hmem, hothers⟩ := h.carries_track hkey hc
  cases hexpiration : r.expiration with
  | none =>
    rw [hexpiration] at hrest hdeadline
    obtain rfl : none = until_ := Except.ok.inj hdeadline
    obtain _ | _ := hrest
    -- nobody gives way to a life for good but another one, so the set had no deadline
    have hforever : (m r.trackingKey).bind Entry.deadline = none := by
      cases he : m r.trackingKey with
      | none => rfl
      | some e =>
        have hgives := hends none (hexpiration ▸ rfl) _ (h.ended e he)
        exact (hgives.outlasts (h.current _ e he)).2 rfl
    rw [hforever] at hset
    exact ⟨none, set, rfl, hentry, hset, hmem, hothers⟩
  | some ttl =>
    rw [hexpiration] at hrest hdeadline
    obtain _ | ⟨hexpire, hrest⟩ := hrest
    obtain _ | _ := hrest
    rw [show (Command.expire r.trackingKey ttl).key = r.trackingKey from rfl, hset] at hexpire
    obtain ⟨until', hdeadline', hleaves⟩ := Command.leaves_expire hexpire
    obtain rfl : until_ = until' := Except.ok.inj (hdeadline.symm.trans hdeadline')
    refine ⟨until_, set, hdeadline, ?_, ?_, hmem, fun k hk htk => ?_⟩
    · rw [Command.carry_of_ne hkey, hentry]
    · exact Command.carry_self.trans ((congrArg _ hset).trans hleaves)
    · rw [Command.carry_of_ne htk, hothers k hk htk]

/-- **A put keeps the set in order** if every end so far gives way to its own. -/
theorem put {key : String} {json : Bytes} (h : Tracks r owned ends now m)
    (hkey : r.storageKey key ≠ r.trackingKey) (hc : Carries now (r.putCommands key json) m m')
    (hends : ∀ until_, State.deadline r.expiration now = .ok until_ →
      ∀ d, ends d → GivesWay now d until_) :
    Tracks r owned (fun d => ends d ∨ State.deadline r.expiration now = .ok d) now m' := by
  obtain ⟨until_, set, hdeadline, hentry, hset, hmem, hothers⟩ := h.carries_put hkey hc hends
  have hseen : ∀ {e e' : Entry}, (some e).filter (!·.isExpired now) = some e' →
      e' = e ∧ e'.isExpired now = false := by
    intro e e' he
    obtain ⟨heq, hnot⟩ := Option.filter_eq_some_iff.mp he
    exact ⟨(Option.some.inj heq).symm, by simpa using hnot⟩
  have hown : ∀ e, m' r.trackingKey = some e → e = ⟨.members set, until_⟩ ∧ e.isExpired now = false :=
    fun e he => hseen (hset ▸ he)
  have hstays : (⟨.members set, until_⟩ : Entry).isExpired now = false →
      m' r.trackingKey = some ⟨.members set, until_⟩ := by
    intro hnot
    rw [hset, Option.filter_some, hnot]
    rfl
  have hin : Bytes.ofText (r.storageKey key) ∈ set := (hmem _).mpr (.inl rfl)
  have hfilled : set ≠ ∅ := fun hempty => Std.ExtTreeSet.not_mem_empty (hempty ▸ hin)
  refine ⟨fun k e he => ?_, fun e he => ?_, fun e he => ?_, fun x hx => ?_, fun k e howned hk he => ?_⟩
  · by_cases htk : k = r.trackingKey
    · exact (hown e (htk ▸ he)).2
    by_cases hsk : k = r.storageKey key
    · exact (hseen (hentry ▸ hsk ▸ he)).2
    · exact h.current k e (hothers k hsk htk ▸ he)
  · rw [(hown e he).1]
    exact ⟨set, rfl, Std.ExtTreeSet.isEmpty_eq_false_iff.mpr hfilled⟩
  · rw [(hown e he).1]
    exact .inr hdeadline
  · obtain ⟨_, _, hx, hxin⟩ := hx
    cases (hown _ hx).1
    rcases (hmem x).mp hxin with rfl | hbefore
    · exact ⟨_, hkey, rfl⟩
    · exact h.listed x hbefore
  · by_cases hsk : k = r.storageKey key
    · subst hsk
      obtain ⟨rfl, hnot⟩ := hseen (hentry ▸ he)
      rw [hstays hnot]
      exact ⟨.inr hdeadline, ⟨set, until_, rfl, hin⟩, .refl until_⟩
    · rw [hothers k hsk hk] at he
      obtain ⟨hend, hlists, -⟩ := h.tracked k e howned hk he
      have hcurrent := h.current k e he
      have houtlasts := ((hends until_ hdeadline _ hend).outlasts hcurrent).1
      rw [hstays (Outlasts.not_expired houtlasts hcurrent)]
      exact ⟨.inl hend, ⟨set, until_, rfl, (hmem _).mpr (.inr hlists)⟩, houtlasts⟩

/-- One entry is removed, and its trace. -/
theorem remove {k : String} (h : Tracks r owned ends now m) (hk : k ≠ r.trackingKey) :
    let m₁ := (Command.delete k).carry now m
    let m₂ := (Command.setRemove r.trackingKey (Bytes.ofText k)).carry now m₁
    (Command.setRemove r.trackingKey (Bytes.ofText k)).Accepts now (m₁ r.trackingKey) ∧
      Tracks r owned ends now m₂ ∧ m₂ k = none ∧ (∀ k', k' ≠ k → k' ≠ r.trackingKey → m₂ k' = m k') ∧
      ∀ x, HasMember (m₂ r.trackingKey) x ↔ x ≠ Bytes.ofText k ∧ HasMember (m r.trackingKey) x := by
  intro m₁ m₂
  have hsame : m₁ r.trackingKey = m r.trackingKey := Command.carry_of_ne (Ne.symm hk)
  have hset : m₂ r.trackingKey =
      (Command.setRemove r.trackingKey (Bytes.ofText k)).leaves now (m r.trackingKey) :=
    Command.carry_self.trans (congrArg _ hsame)
  have hgone : m₂ k = none :=
    (Command.carry_of_ne hk).trans (Command.carry_self.trans (Command.leaves_delete ..))
  have hothers : ∀ k', k' ≠ k → k' ≠ r.trackingKey → m₂ k' = m k' := fun k' hk' htk =>
    (Command.carry_of_ne htk).trans (Command.carry_of_ne hk')
  obtain ⟨haccepts, hheld, hdeadline, hlists⟩ := Command.leaves_setRemove r.trackingKey (Bytes.ofText k)
    h.held (h.current r.trackingKey)
  rw [← hset] at hheld hdeadline hlists
  refine ⟨hsame ▸ haccepts, ⟨Command.carry_current (Command.carry_current h.current), hheld, ?_, ?_, ?_⟩,
    hgone, hothers, hlists⟩
  · intro e he
    obtain ⟨before, hbefore, hends⟩ := hdeadline e he
    exact hends ▸ h.ended before hbefore
  · exact fun x hx => h.listed x ((hlists x).mp hx).2
  · intro key e howned htk he
    have hne : key ≠ k := by
      rintro rfl
      rw [hgone] at he
      cases he
    obtain ⟨hend, hin, houtlasts⟩ := h.tracked key e howned htk (hothers key hne htk ▸ he)
    have hstill : HasMember (m₂ r.trackingKey) (Bytes.ofText key) :=
      (hlists _).mpr ⟨fun heq => hne (Bytes.ofText_injective heq), hin⟩
    refine ⟨hend, hstill, ?_⟩
    obtain ⟨set, until_, hheld, -⟩ := hstill
    obtain ⟨before, hbefore, hends⟩ := hdeadline _ hheld
    rw [hbefore, Option.bind_some, hends] at houtlasts
    rw [hheld]
    exact houtlasts

/-- **A removal of entries with their traces keeps the set in order**, can always be carried out, and does
nothing else. -/
theorem removals (h : Tracks r owned ends now m) {keys : List String}
    (hkeys : ∀ k ∈ keys, k ≠ r.trackingKey) :
    ∃ m', Carries now (r.removals keys) m m' ∧ Tracks r owned ends now m' ∧
      (∀ k, k ≠ r.trackingKey → m' k = if k ∈ keys then none else m k) ∧
      ∀ x, HasMember (m' r.trackingKey) x ↔ x ∉ keys.map Bytes.ofText ∧ HasMember (m r.trackingKey) x := by
  induction keys generalizing m with
  | nil => exact ⟨m, .nil, h, by simp, by simp⟩
  | cons k rest ih =>
    obtain ⟨hk, hrest⟩ := List.forall_mem_cons.mp hkeys
    obtain ⟨haccepts, h₂, hgone, hothers, hlists⟩ := h.remove hk
    obtain ⟨m', hcarries, h', hleft, hlists'⟩ := ih h₂ hrest
    refine ⟨m', .cons (Command.accepts_delete ..) (.cons haccepts hcarries), h', fun k' htk => ?_,
      fun x => ?_⟩
    · rw [hleft k' htk]
      by_cases hk' : k' = k
      · subst hk'
        simp [hgone]
      · simp [hothers k' hk' htk, hk']
    · rw [hlists', hlists]
      simp only [List.map_cons, List.mem_cons, not_or]
      tauto

end Tracks

end WatchedStore.Cache
