import Mathlib.Data.List.Infix
import WatchedStore.Proofs.Cache.Neighbours

/-!
# Regions that know nothing of each other

Regions whose names have no colon, with a colon behind each name as their prefix, share no key: up to its
first colon a storage key is the name of its region, and a tracking key has no colon (`Plain.name_eq`). So
what one of them does is nothing to the others, but that it takes up room.

This is told of two runs. The one is that of all clients, in the other those of all but one region are
erased (`ofClients`), and its store holds no more than what the region owns (`Share`).

**The step laws**: a call of the region finds the same in both stores, is answered alike, and leaves them
so (`Share.call`), as long as nothing in it is refused, which a tidy tracking set and some room ensure
(`Tidy.call`); a call of another region is no call at all to this one (`Makes.spares_others`). **The run
law** (`regions_independent`): the clients of a region get on as if they were alone with it.
-/

namespace WatchedStore

namespace Memory

variable {ι α : Type}

/-- Whether a turn is that of a client of a kind, or somebody else's. -/
def Turn.isOf (kind : ι → Bool) : Turn ι → Bool
  | .client i => kind i
  | .other _ => true

/-- **What is left of a schedule** if all clients are erased but those of a kind: their turns, and what
others do, at the same readings of the clock. -/
def ofClients (kind : ι → Bool) (schedule : List (Instant × Turn ι)) : List (Instant × Turn ι) :=
  schedule.filter fun step => step.2.isOf kind

theorem maxEntries_advance (now : Instant) (s : Store) (p : Program Transaction α) :
    (advance now s p).2.maxEntries = s.maxEntries := by
  cases p with
  | call c next => exact s.maxEntries_perform now (.call c)
  | _ => rfl

theorem System.maxEntries_turn [DecidableEq ι] (sys : System ι α) (now : Instant) (who : Turn ι) :
    (sys.turn now who).store.maxEntries = sys.store.maxEntries := by
  cases who with
  | client j => exact maxEntries_advance now sys.store (sys.program j)
  | other d => exact sys.store.maxEntries_perform now d

end Memory

namespace Cache

open Memory WatchedStore.Action

/-! ## Whose key it is -/

/-- A region whose name has no colon, and whose prefix is its name with a colon behind it. -/
structure Region.Plain (r : Region) : Prop where
  colonless : ':' ∉ r.name.toList
  keyPrefix : r.keyPrefix = some (r.name ++ ":")

namespace Region.Plain

variable {r r' : Region} {k : String}

theorem toList_storageKey (h : r.Plain) (key : String) :
    (r.storageKey key).toList = r.name.toList ++ ':' :: key.toList := by
  rw [storageKey, h.keyPrefix, Option.getD_some, String.toList_append, String.toList_append,
    List.append_assoc]
  rfl

/-- **The name of a region stands before the first colon** of its storage keys. -/
theorem takeWhile_storageKey (h : r.Plain) (key : String) :
    (r.storageKey key).toList.takeWhile (· ≠ ':') = r.name.toList := by
  have hname : ∀ c ∈ r.name.toList, decide (c ≠ ':') = true := by
    intro c hc
    refine decide_eq_true ?_
    rintro rfl
    exact h.colonless hc
  rw [h.toList_storageKey, List.takeWhile_append_of_pos hname]
  simp

theorem colon_mem_storageKey (h : r.Plain) (key : String) : ':' ∈ (r.storageKey key).toList := by
  simp [h.toList_storageKey]

theorem colon_not_mem_trackingKey (h : r.Plain) : ':' ∉ r.trackingKey.toList := by
  rw [trackingKey, String.toList_append, List.mem_append, not_or]
  exact ⟨h.colonless, by decide⟩

/-- **No key belongs to two regions.** -/
theorem name_eq (h : r.Plain) (h' : r'.Plain) (hk : r.Owns k) (hk' : r'.Owns k) : r.name = r'.name := by
  rcases hk with rfl | ⟨key, rfl⟩ <;> rcases hk' with heq | ⟨key', heq⟩
  · exact name_eq_of_trackingKey heq
  · exact absurd (heq ▸ h'.colon_mem_storageKey key') h.colon_not_mem_trackingKey
  · exact absurd (heq ▸ h.colon_mem_storageKey key) h'.colon_not_mem_trackingKey
  · refine String.toList_inj.mp ?_
    rw [← h.takeWhile_storageKey key, heq, h'.takeWhile_storageKey]

end Region.Plain

/-- What a region asks for that stores and removes entries under storage keys of its own. -/
abbrev Region.Acts (r : Region) : Call Transaction → Prop := r.Makes r.IsStorageKey r.IsStorageKey

/-- **A call is nothing to the keys of others.** -/
theorem Region.Makes.spares_others {r : Region} {now : Instant} {s : Store} {c : Call Transaction} {k : String}
    (hc : r.Acts c) (hk : ¬ r.Owns k) : (s.call now c).2.state.entries[k]? = s.state.entries[k]? := by
  have hne : ∀ key, r.Owns key → key ≠ k := by
    rintro key hkey rfl
    exact hk hkey
  refine hc.keeps (I := fun state => state.entries[k]? = s.state.entries[k]?)
    (fun state key hkey hstate => ?_) (fun commands hbatch command hcommand state hstate => ?_) rfl
  · rw [State.entries_purge_of_ne _ _ (hne key hkey)]
    exact hstate
  · subst hbatch
    have howns : r.Owns command.key := (hc.key hcommand).imp_right fun h => h.elim id id
    rw [State.entries_apply_of_ne _ _ _ (hne _ howns).symm]
    exact hstate

/-! ## Nothing is refused -/

/-- **A tidy region** in a sound store: its tracking set is in order, and lists storage keys only. -/
structure Tidy (r : Region) (now : Instant) (s : Store) : Prop where
  sound : s.poisoned = false
  tracks : Tracks r (fun _ => False) (r.ends now) now (s.state.live now)
  lists : Lists r.IsStorageKey (s.state.live now r.trackingKey)

namespace Tidy

variable {r : Region} {now t : Instant} {s : Store} {c : Call Transaction}

theorem of_new (hsound : s.poisoned = false) (h : s.state.live now r.trackingKey = none) : Tidy r now s where
  sound := hsound
  tracks := { tracks_of_new h _ with tracked := fun _ _ howned => howned.elim }
  lists := by
    rintro x ⟨_, _, hx, -⟩
    rw [h] at hx
    cases hx

theorem later (h : Tidy r now s) (hle : now ≤ t) : Tidy r t s where
  sound := h.sound
  tracks := (h.tracks.later hle).mono fun _ hd => r.ends_later hd hle
  lists := h.lists.later hle

theorem cleanUp (h : Tidy r now s) : Tidy r now (s.perform now .cleanUp) where
  sound := (poisoned_cleanUp s now).trans h.sound
  tracks := by
    rw [live_cleanUp]
    exact h.tracks
  lists := by
    rw [live_cleanUp]
    exact h.lists

/-- Whoever leaves the tracking key alone leaves the region tidy. -/
theorem beside {s' : Store} (h : Tidy r now s) (hsound : s'.poisoned = false)
    (hsame : s'.state.entries[r.trackingKey]? = s.state.entries[r.trackingKey]?) : Tidy r now s' := by
  have hlive : s'.state.live now r.trackingKey = s.state.live now r.trackingKey := by
    rw [State.live, State.live, hsame]
  refine ⟨hsound, ⟨s'.state.live_current now, ?_, ?_, ?_, fun _ _ howned => howned.elim⟩, ?_⟩
  · rw [hlive]
    exact h.tracks.held
  · rw [hlive]
    exact h.tracks.ended
  · rw [hlive]
    exact h.tracks.listed
  · rw [hlive]
    exact h.lists

/-- **In a call of a tidy region nothing is refused** if there is room left behind it. The region stays
tidy, and is told storage keys only. -/
theorem call (h : Tidy r now s) (hr : r.Plain) (hc : r.Acts c) (hrep : r.Representable now)
    (hroom : (s.call now c).2.state.entries.size < s.maxEntries) :
    (∀ commands, c = .request (.batch commands) →
      succeeds (s.state.applyAll commands s.maxEntries now).1 = true) ∧
    Tidy r now (s.call now c).2 ∧ r.Hears r.IsStorageKey c (s.call now c).1 := by
  have hne : ∀ k, r.IsStorageKey k → k ≠ r.trackingKey := by
    rintro _ ⟨key, rfl⟩
    exact Region.storageKey_ne_trackingKey hr.keyPrefix key
  have hlists := hc.lists (fun _ _ hkey => hkey) h.lists
  have hread : ∀ key, Tidy r now { s with state := s.state.purge key now } := fun key =>
    ⟨h.sound, (s.state.live_purge key now).symm ▸ h.tracks, (s.state.live_purge key now).symm ▸ h.lists⟩
  have hbatch : ∀ commands, c = .request (.batch commands) → r.Asks c →
      succeeds (s.state.applyAll commands s.maxEntries now).1 = true → Tidy r now (s.call now c).2 := by
    rintro commands rfl hasks hgood
    have hsucceeds : succeeds (s.request now (.batch commands)).1 = true := by
      rw [batch_of_sound h.sound]
      exact hgood
    obtain ⟨hsound, htracks, -⟩ := hasks.keeps h.sound h.tracks
      (fun _ hdeadline _ hd => r.ends_giveWay hd hdeadline) hsucceeds
    exact ⟨hsound, htracks.mono fun _ hd => hd.elim id r.ends_of_deadline, hlists⟩
  have hhears := hc.hears h.lists
  cases hc with
  | members =>
    refine ⟨fun _ heq => (by cases heq), ?_, hhears⟩
    rw [Store.call, setMembers_of_sound h.sound]
    exact hread _
  | get key =>
    refine ⟨fun _ heq => (by cases heq), ?_, hhears⟩
    rw [Store.call, get_of_sound h.sound]
    exact hread _
  | put key json _ =>
    rw [Store.call, batch_of_sound h.sound] at hroom
    have hgood := putCommands_succeed h.tracks.held (hne _ ⟨key, rfl⟩) hrep hroom
    refine ⟨?_, hbatch _ rfl (.put key json (hne _ ⟨key, rfl⟩)) hgood, hhears⟩
    rintro _ ⟨⟩
    exact hgood
  | remove keys hkeys =>
    have hothers := fun k hk => hne k (hkeys k hk)
    obtain ⟨m, hcarries, -⟩ := h.tracks.removals hothers
    have hgood : succeeds (s.state.applyAll (r.removals keys) s.maxEntries now).1 = true :=
      State.succeeds_of_carries (roomless_removals keys) hcarries
    refine ⟨?_, hbatch _ rfl (.remove keys hothers) hgood, hhears⟩
    rintro _ ⟨⟩
    exact hgood

end Tidy

/-! ## A region alone -/

/-- **A store that holds what a region owns of another one**, and nothing else. -/
structure Share (r : Region) (own whole : Store) : Prop where
  sound : own.poisoned = false
  max : own.maxEntries = whole.maxEntries
  part : Part r.Owns own.state whole.state

namespace Share

variable {r : Region} {now : Instant} {own whole : Store} {c : Call Transaction}

theorem cleanUp (h : Share r own whole) (hsound : whole.poisoned = false) :
    Share r (own.perform now .cleanUp) (whole.perform now .cleanUp) where
  sound := (poisoned_cleanUp own now).trans h.sound
  max := (own.maxEntries_perform now _).trans (h.max.trans (whole.maxEntries_perform now _).symm)
  part := by
    simp only [Store.perform, h.sound, hsound, Bool.false_eq_true, if_false]
    exact h.part.purgeAll now

/-- Whatever leaves the region's keys alone can be left out. -/
theorem beside {whole' : Store} (h : Share r own whole) (hmax : whole'.maxEntries = whole.maxEntries)
    (hsame : ∀ k, r.Owns k → whole'.state.entries[k]? = whole.state.entries[k]?) : Share r own whole' :=
  ⟨h.sound, h.max.trans hmax.symm, h.part.beside hsame⟩

/-- **A call in which nothing is refused** is answered alike, and leaves alike what the region owns. -/
theorem call (h : Share r own whole) (hsound : whole.poisoned = false) (hc : r.Acts c)
    (hgood : ∀ commands, c = .request (.batch commands) →
      succeeds (whole.state.applyAll commands whole.maxEntries now).1 = true) :
    (own.call now c).1 = (whole.call now c).1 ∧ Share r (own.call now c).2 (whole.call now c).2 := by
  have hread : ∀ key, r.Owns key → own.state.live now key = whole.state.live now key ∧
      Share r { own with state := own.state.purge key now } { whole with state := whole.state.purge key now } :=
    fun key hkey => ⟨h.part.live hkey now, h.sound, h.max, h.part.purge hkey now⟩
  have hbatch : ∀ commands, r.Acts (.request (.batch commands)) →
      succeeds (whole.state.applyAll commands whole.maxEntries now).1 = true →
      (own.request now (.batch commands)).1 = (whole.request now (.batch commands)).1 ∧
        Share r (own.request now (.batch commands)).2 (whole.request now (.batch commands)).2 := by
    intro commands hc hgood
    obtain ⟨hanswer, hpart⟩ := h.part.applyAll
      (fun command hcommand => (hc.key hcommand).imp_right fun hk => hk.elim id id) hgood
    rw [← h.max] at hanswer hpart hgood
    have hsucceeds : succeeds (own.request now (.batch commands)).1 = true := by
      rw [batch_of_sound h.sound, hanswer]
      exact hgood
    have hstill := (batch_of_succeeds h.sound hsucceeds).1
    rw [batch_of_sound h.sound] at hstill ⊢
    rw [batch_of_sound hsound, ← h.max]
    exact ⟨hanswer, hstill, rfl, hpart⟩
  cases hc with
  | members =>
    obtain ⟨hlive, hshare⟩ := hread _ (.inl rfl)
    rw [Store.call, Store.call, setMembers_of_sound h.sound, setMembers_of_sound hsound, hlive]
    exact ⟨rfl, hshare⟩
  | get key =>
    obtain ⟨hlive, hshare⟩ := hread _ (.inr ⟨key, rfl⟩)
    rw [Store.call, Store.call, get_of_sound h.sound, get_of_sound hsound, hlive]
    exact ⟨rfl, hshare⟩
  | put key json hkey => exact hbatch _ (.put key json hkey) (hgood _ rfl)
  | remove keys hkeys => exact hbatch _ (.remove keys hkeys) (hgood _ rfl)

end Share

/-! ## One step of a program -/

section Step

variable {r : Region} {now : Instant} {s own whole : Store} {p : Program Transaction α} {k : String}

/-- A program whose calls are those of a region, as long as it is told storage keys only. -/
abbrev Region.Runs (r : Region) : Program Transaction α → Prop := Relies r.Acts (r.Hears r.IsStorageKey)

theorem Tidy.advance (h : Tidy r now s) (hr : r.Plain) (hp : r.Runs p) (hrep : r.Representable now)
    (hroom : (advance now s p).2.state.entries.size < s.maxEntries) :
    Tidy r now (advance now s p).2 ∧ r.Runs (advance now s p).1 := by
  cases hp with
  | done => exact ⟨h, .done⟩
  | call hc hnext =>
    obtain ⟨-, hafter, hhears⟩ := h.call hr hc hrep hroom
    exact ⟨hafter, hnext _ hhears⟩
  | report hnext => exact ⟨h, hnext⟩
  | pause hnext => exact ⟨h, hnext⟩

theorem Region.Runs.spares_others (hp : r.Runs p) (hk : ¬ r.Owns k) :
    (advance now s p).2.state.entries[k]? = s.state.entries[k]? := by
  cases hp with
  | call hc _ => exact hc.spares_others hk
  | _ => rfl

theorem Share.advance (h : Share r own whole) (htidy : Tidy r now whole) (hr : r.Plain) (hp : r.Runs p)
    (hrep : r.Representable now) (hroom : (advance now whole p).2.state.entries.size < whole.maxEntries) :
    (advance now own p).1 = (advance now whole p).1 ∧
      Share r (advance now own p).2 (advance now whole p).2 := by
  cases hp with
  | @call c next hc _ =>
    obtain ⟨hanswer, hshare⟩ := h.call htidy.sound hc (htidy.call hr hc hrep hroom).1
    exact ⟨congrArg next hanswer, hshare⟩
  | _ => exact ⟨rfl, h⟩

end Step

/-! ## Two runs -/

section Runs

variable {ι : Type} {region : String → Region} {name : ι → String} {i : ι} {now t t' : Instant}
  {own whole : System ι α} {who : Turn ι} {schedule : List (Instant × Turn ι)}

/-- **Two systems that are alike to the clients of one region.** In the one, all regions are tidy; the other
one's store holds what this region owns, and its clients' programs are the same. -/
structure Alike (region : String → Region) (name : ι → String) (i : ι) (now : Instant)
    (own whole : System ι α) : Prop where
  share : Share (region (name i)) own.store whole.store
  tidy : ∀ j, Tidy (region (name j)) now whole.store
  runs : ∀ j, (region (name j)).Runs (whole.program j)
  same : ∀ j, name j = name i → own.program j = whole.program j

theorem Alike.later (h : Alike region name i now own whole) (hle : now ≤ t) :
    Alike region name i t own whole :=
  ⟨h.share, fun j => (h.tidy j).later hle, h.runs, h.same⟩

variable [DecidableEq ι]

/-- A client's turn leaves all regions tidy, its own one and those of others, and its own program is told
what it relies on. -/
theorem tidy_turn (hnamed : ∀ n, (region n).name = n) (hplain : ∀ j, (region (name j)).Plain) {j : ι}
    (htidy : ∀ j, Tidy (region (name j)) now whole.store)
    (hruns : ∀ j, (region (name j)).Runs (whole.program j))
    (hrep : (region (name j)).Representable now)
    (hroom : (whole.turn now (.client j)).store.state.entries.size < whole.store.maxEntries) :
    (∀ j', Tidy (region (name j')) now (whole.turn now (.client j)).store) ∧
    (∀ j', (region (name j')).Runs ((whole.turn now (.client j)).program j')) ∧
    ∀ j', name j' ≠ name j → ∀ k, (region (name j')).Owns k →
      (whole.turn now (.client j)).store.state.entries[k]? = whole.store.state.entries[k]? := by
  obtain ⟨hown, hrunsOwn⟩ := (htidy j).advance (hplain j) (hruns j) hrep hroom
  have hothers : ∀ j', name j' ≠ name j → ∀ k, (region (name j')).Owns k →
      (whole.turn now (.client j)).store.state.entries[k]? = whole.store.state.entries[k]? := by
    intro j' hne k hk
    refine (hruns j).spares_others fun hk' => hne ?_
    rw [← hnamed (name j'), (hplain j').name_eq (hplain j) hk hk', hnamed]
  refine ⟨fun j' => ?_, fun j' => ?_, hothers⟩
  · by_cases hname : name j' = name j
    · rw [hname]
      exact hown
    · exact (htidy j').beside hown.sound (hothers j' hname _ (.inl rfl))
  · by_cases hj : j = j'
    · subst hj
      rw [System.program_turn_own]
      exact hrunsOwn
    · rw [System.program_turn_other whole j' now hj]
      exact hruns j'

/-- **One turn keeps two systems alike** if it takes place in both of them, or is erased in the one because
it is that of a client of another region. -/
theorem Alike.step (hnamed : ∀ n, (region n).name = n) (hplain : ∀ j, (region (name j)).Plain)
    (h : Alike region name i now own whole) (hother : ∀ d, who = .other d → d = .cleanUp)
    (hrep : ∀ j, who = .client j → (region (name j)).Representable now)
    (hroom : (whole.turn now who).store.state.entries.size < whole.store.maxEntries) :
    Alike region name i now (if who.isOf (name · == name i) then own.turn now who else own)
      (whole.turn now who) := by
  cases who with
  | other d =>
    obtain rfl := hother d rfl
    exact ⟨h.share.cleanUp (h.tidy i).sound, fun j => (h.tidy j).cleanUp, h.runs, h.same⟩
  | client j =>
    obtain ⟨htidy, hruns, hothers⟩ := tidy_turn hnamed hplain h.tidy h.runs (hrep j rfl) hroom
    by_cases hname : name j = name i
    · have hkept : (Turn.client j).isOf (name · == name i) = true := beq_iff_eq.mpr hname
      obtain ⟨hleft, hshare⟩ :=
        (hname ▸ h.share).advance (h.tidy j) (hplain j) (h.runs j) (hrep j rfl) hroom
      rw [if_pos hkept]
      refine ⟨?_, htidy, hruns, fun j' hj' => ?_⟩
      · rw [← hname]
        simp only [System.turn, h.same j hname]
        exact hshare
      · by_cases hj : j = j'
        · subst hj
          rw [System.program_turn_own, System.program_turn_own, h.same j hname]
          exact hleft
        · rw [System.program_turn_other own j' now hj, System.program_turn_other whole j' now hj]
          exact h.same j' hj'
    · have herased : ¬ (Turn.client j).isOf (name · == name i) = true := fun h => hname (beq_iff_eq.mp h)
      rw [if_neg herased]
      refine ⟨h.share.beside (whole.maxEntries_turn now _) (hothers i (Ne.symm hname)), htidy, hruns,
        fun j' hj' => ?_⟩
      have hj : j ≠ j' := by
        rintro rfl
        exact hname hj'
      rw [System.program_turn_other whole j' now hj]
      exact h.same j' hj'

/-- **Two runs stay alike**, by induction on the schedule. -/
theorem Alike.run (hnamed : ∀ n, (region n).name = n) (hplain : ∀ j, (region (name j)).Plain)
    (h : Alike region name i t own whole) (hrun : Ordered t schedule t') (hothers : OnlyCleanUps schedule)
    (hrep : ∀ now j, (now, .client j) ∈ schedule → (region (name j)).Representable now)
    (hroom : ∀ pre, pre <+: schedule →
      (whole.after pre).store.state.entries.size < whole.store.maxEntries) :
    Alike region name i t' (own.after (ofClients (name · == name i) schedule)) (whole.after schedule) := by
  induction schedule generalizing own whole t with
  | nil => exact h.later hrun
  | cons step rest ih =>
    obtain ⟨now, who⟩ := step
    obtain ⟨hle, hrest⟩ := hrun
    have hnext := (h.later hle).step hnamed hplain (hothers _ List.mem_cons_self)
      (fun j hj => hrep now j (hj ▸ List.mem_cons_self)) (hroom [(now, who)] (List.prefix_append _ rest))
    have hleft : own.after (ofClients (name · == name i) ((now, who) :: rest)) =
        (if who.isOf (name · == name i) then own.turn now who else own).after
          (ofClients (name · == name i) rest) := by
      unfold ofClients
      rw [List.filter_cons]
      split <;> rfl
    rw [hleft]
    refine ih hnext hrest (fun step hstep => hothers step (List.mem_cons_of_mem _ hstep))
      (fun now j hj => hrep now j (List.mem_cons_of_mem _ hj)) fun pre hpre => ?_
    rw [System.maxEntries_turn]
    exact hroom ((now, who) :: pre) (List.cons_prefix_cons.mpr ⟨rfl, hpre⟩)

end Runs

/-- **Regions whose names have no colon are independent.** Let any number of clients each ask something of a
region of one manager, whose prefixes are the names with a colon behind them; let none of the names have a
colon, whereas keys may be anything. On a store that is empty at first, let their calls come in between each
other in any order, with time passing and clean-ups at any place, as long as all ends can be told and the
store is never full. Then a client has got as far, and to the same result, as it would have if all clients of
other regions were erased, everything else taking place at the same time; and what its region owns, entries
and tracking set, is stored as it would be then. -/
theorem regions_independent {ι α : Type} [DecidableEq ι] {settings : CacheSettings} {region : String → Region}
    {name : ι → String} {codec : ι → Codec α} {operation : ι → Operation α}
    {sys : System ι (Except Error (Option α))} {max : Nat} {t t' : Instant}
    {schedule : List (Instant × Turn ι)}
    (hprefixed : settings.usePrefix = true) (hdelimiter : settings.delimiter = ":")
    (hregion : ∀ n, (Manager.ofSettings settings).newRegion n = .ok (region n))
    (hnames : ∀ i, ':' ∉ (name i).toList)
    (hprogram : ∀ i, sys.program i = ExceptT.run ((operation i).action (codec i) (region (name i))))
    (hempty : sys.store = { maxEntries := max })
    (hrun : Ordered t schedule t') (hothers : OnlyCleanUps schedule)
    (hrep : ∀ now i, (now, .client i) ∈ schedule → (region (name i)).Representable now)
    (hroom : ∀ pre, pre <+: schedule → (sys.after pre).store.state.entries.size < max) (i : ι) :
    let own := ofClients (name · == name i) schedule
    (sys.after schedule).program i = (sys.after own).program i ∧
      ∀ k, (region (name i)).Owns k →
        (sys.after schedule).store.state.entries[k]? = (sys.after own).store.state.entries[k]? := by
  intro own
  have hkeys := region_of_newRegion hprefixed hregion
  have hplain : ∀ n, ':' ∉ n.toList → (region n).Plain := by
    intro n hn
    refine ⟨(hkeys n).1.symm ▸ hn, ?_⟩
    rw [(hkeys n).1, (hkeys n).2, hdelimiter]
  have hstart : Alike region name i t sys sys := by
    refine ⟨⟨?_, rfl, ⟨fun _ _ => rfl, fun k _ => ?_⟩⟩, fun j => .of_new ?_ ?_, fun j => ?_, fun _ _ => rfl⟩
    · rw [hempty]
    · rw [hempty]
      rfl
    · rw [hempty]
    · rw [hempty]
      rfl
    · rw [hprogram]
      exact (operation j).makes (codec j) _ (fun key _ _ => ⟨key, rfl⟩) fun key _ => ⟨key, rfl⟩
  have hmax : sys.store.maxEntries = max := by rw [hempty]
  have hend := hstart.run (fun n => (hkeys n).1) (fun j => hplain _ (hnames j)) hrun hothers hrep (hmax ▸ hroom)
  exact ⟨(hend.same i rfl).symm, fun k hk => (hend.share.part.same k hk).symm⟩

/-- Two regions with keys that look like each other's. One is cleared after the other has put an entry, which
is read as if nobody else had been there. -/
theorem regions_independent_cleared :
    let region (n : String) : Region := ⟨n, some (n ++ ":"), some (.ofMillis 5)⟩
    let name : Fin 4 → String
      | 0 | 3 => "n"
      | 1 | 2 => "m"
    let operation : Fin 4 → Operation String
      | 0 => .put "a:~keys" "x"
      | 1 => .put "n:a:~keys" "y"
      | 2 => .clear
      | 3 => .get "a:~keys"
    let sys : System (Fin 4) (Except Error (Option String)) :=
      { store := { maxEntries := 5 }
        program := fun i => ExceptT.run ((operation i).action .text (region (name i))) }
    let schedule : List (Instant × Turn (Fin 4)) :=
      [(1, .client 0), (2, .client 1), (3, .client 2), (4, .other .cleanUp), (5, .client 2), (6, .client 3)]
    (sys.after schedule).program 3 =
      (sys.after [(1, .client 0), (4, .other .cleanUp), (6, .client 3)]).program 3 := by
  intro region name operation sys schedule
  have hregion : ∀ n, (Manager.ofSettings { usePrefix := true, defaultExpiration := .ofMillis 5 }).newRegion n =
      .ok (region n) := by
    intro n
    simp [Manager.newRegion, Manager.ofSettings, Manager.expirationFor, PrefixStrategy.delimited, region]
    exact ⟨rfl, rfl⟩
  have hnames : ∀ i, ':' ∉ (name i).toList := by decide
  have hrun : Ordered 0 schedule 6 := by simp [schedule, Ordered]
  have hothers : OnlyCleanUps schedule := by simp [OnlyCleanUps, schedule]
  have hends : ∀ step ∈ schedule, (Instant.after? step.1 (.ofMillis 5)).isSome = true := by
    simp [schedule]
    decide
  have hrep : ∀ now i, (now, .client i) ∈ schedule → (region (name i)).Representable now := by
    rintro now i hstep ttl ⟨⟩
    exact hends _ hstep
  have hroom : schedule.inits.all (fun pre => decide ((sys.after pre).store.state.entries.size < 5)) = true := by
    decide +kernel
  have hprogram : ∀ i, sys.program i = ExceptT.run ((operation i).action .text (region (name i))) := fun _ => rfl
  refine (regions_independent rfl rfl hregion hnames hprogram rfl hrun hothers hrep (fun pre hpre => ?_) 3).1
  exact of_decide_eq_true (List.all_eq_true.mp hroom pre ((List.mem_inits pre schedule).mpr hpre))

end Cache

end WatchedStore
