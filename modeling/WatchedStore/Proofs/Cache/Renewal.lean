import WatchedStore.Proofs.Cache.Timeline

/-!
# Puts with spans of their own

Handles of one region may disagree about how long its entries live, and each put gives the tracking set the
end of its own entry. So a put can end the set before entries that were put earlier, and a clearing then
misses these (`puts_not_tracked`).

**The law** (`puts_tracked`): if every entry's end gives way to the ends of the puts that come later, being
over by then or not after them, the tracking set lists every entry that can be seen, and a clearing finds
it.
-/

namespace WatchedStore.Cache

open Memory

/-- A put through a handle of a region, which may have an expiration of its own. -/
structure Put (α : Type) where
  expiration : Option Duration
  key : String
  value : α

/-- A put as it is asked of a handle. -/
def Put.through (r : Region) (p : Put α) : Region × Operation α :=
  ({ r with expiration := p.expiration }, .put p.key p.value)

/-- When an entry ends that was put so. -/
def Occurrence.ends (o : Occurrence α) : Option Instant :=
  o.region.expiration.map fun ttl => o.now + ttl.nanoseconds

variable {codec : Codec α} {r : Region} {owned : String → Prop} {ends : Option Instant → Prop}

/-- To all handles of a region the tracking set is the same. -/
theorem Tracks.handle {now : Instant} {m : Contents} (h : Tracks r owned ends now m) (r' : Region)
    (hkey : r'.trackingKey = r.trackingKey) : Tracks r' owned ends now m where
  current := h.current
  held := hkey ▸ h.held
  ended := hkey ▸ h.ended
  listed := hkey ▸ h.listed
  tracked := hkey ▸ h.tracked

/-- **A put that succeeds keeps the set in order**, if all ends so far give way to its own. -/
theorem put_tracks {p : Put α} {solo : Solo} (hkey : r.storageKey p.key ≠ r.trackingKey)
    (hsound : solo.store.poisoned = false)
    (h : Tracks r owned ends solo.now (solo.store.state.live solo.now))
    {result : Except Error (Option α)} {after : Solo}
    (halone : (p.through r).2.alone codec (p.through r).1 solo = (result, after))
    (hok : result.isOk = true)
    (hgives : ∀ d, ends d → GivesWay after.now d (p.expiration.map fun ttl => after.now + ttl.nanoseconds)) :
    after.store.poisoned = false ∧
      Tracks r owned (fun d => ends d ∨ d = p.expiration.map fun ttl => after.now + ttl.nanoseconds)
        after.now (after.store.state.live after.now) := by
  cases hencode : codec.encode p.value with
  | error e =>
    rw [Put.through, put_alone_of_error hencode] at halone
    cases halone
    cases hok
  | ok json =>
    obtain ⟨hleft, -, hsucceeds⟩ := put_alone p.key hencode (p.through r).1 solo
    rw [Put.through] at halone hleft hsucceeds
    rw [halone] at hleft hsucceeds
    have hhandle := (tracks_next h).handle { r with expiration := p.expiration } rfl
    obtain ⟨hafter, hcarries⟩ :=
      batch_of_succeeds ((Solo.poisoned_next solo).trans hsound) (hsucceeds hok)
    obtain rfl : after = _ := hleft
    have hput := hhandle.put hkey hcarries fun until_ hdeadline d hd =>
      eq_of_deadline hdeadline ▸ hgives d hd
    exact ⟨hafter, (hput.handle r rfl).mono fun d => Or.imp_right eq_of_deadline⟩

/-- Puts that succeed keep the set in order, if every end gives way to the ends of the puts behind it. -/
theorem puts_track {puts : List (Put α)} {solo : Solo}
    (hkeys : ∀ p ∈ puts, r.storageKey p.key ≠ r.trackingKey) (hsound : solo.store.poisoned = false)
    (h : Tracks r owned ends solo.now (solo.store.state.live solo.now))
    (hok : ∀ o ∈ (play codec (puts.map (Put.through r)) solo).1, o.result.isOk = true)
    (hgives : ∀ o ∈ (play codec (puts.map (Put.through r)) solo).1, ∀ d, ends d →
      GivesWay o.now d o.ends)
    (hpairs : (play codec (puts.map (Put.through r)) solo).1.Pairwise fun o later =>
      GivesWay later.now o.ends later.ends) :
    let after := (play codec (puts.map (Put.through r)) solo).2
    after.store.poisoned = false ∧
      ∃ ends', Tracks r owned ends' after.now (after.store.state.live after.now) := by
  induction puts generalizing solo ends with
  | nil => exact ⟨hsound, ends, h⟩
  | cons p rest ih =>
    obtain ⟨hkey, hkeysRest⟩ := List.forall_mem_cons.mp hkeys
    rw [List.map_cons, play] at hok hgives hpairs ⊢
    generalize halone : (p.through r).2.alone codec (p.through r).1 solo = out at hok hgives hpairs ⊢
    obtain ⟨result, after⟩ := out
    dsimp only at hok hgives hpairs ⊢
    obtain ⟨hok₁, hokRest⟩ := List.forall_mem_cons.mp hok
    obtain ⟨hgives₁, hgivesRest⟩ := List.forall_mem_cons.mp hgives
    obtain ⟨hpair, hpairsRest⟩ := List.pairwise_cons.mp hpairs
    obtain ⟨hafter, htracks⟩ := put_tracks hkey hsound h halone hok₁ hgives₁
    refine ih hkeysRest hafter htracks hokRest (fun o ho d hd => ?_) hpairsRest
    rcases hd with hd | rfl
    · exact hgivesRest o ho d hd
    · exact hpair o ho

/-- **Puts with spans of their own are tracked as long as no end comes before an earlier one.** Let entries
be put through handles of one region, each with an expiration of its own, at any times and with clean-ups in
between; let no key look like the tracking key, let all puts succeed, and let the end of each give way to
the ends of those behind it: at their time it is over, or it is not after theirs. From then on, whatever is
seen of a storage key that held nothing at first is a member of the tracking set, which does not end before
it, and a clearing by a client alone leaves none of it. -/
theorem puts_tracked {codec : Codec α} {r : Region} {puts : List (Put α)} (start : Solo)
    (hkeys : ∀ p ∈ puts, r.storageKey p.key ≠ r.trackingKey) (hsound : start.store.poisoned = false)
    (hnew : start.store.state.live start.now r.trackingKey = none)
    (hok : ∀ o ∈ (play codec (puts.map (Put.through r)) start).1, o.result.isOk = true)
    (hpairs : (play codec (puts.map (Put.through r)) start).1.Pairwise fun o later =>
      GivesWay later.now o.ends later.ends) :
    let after := (play codec (puts.map (Put.through r)) start).2
    let own := fun key => start.store.state.live start.now key = none ∧ key ≠ r.trackingKey
    ∀ now, after.now ≤ now →
      (∀ key e, own (r.storageKey key) → after.store.state.live now (r.storageKey key) = some e →
        ∃ set until_, after.store.state.live now r.trackingKey = some ⟨.members set, until_⟩ ∧
          Bytes.ofText (r.storageKey key) ∈ set ∧ Outlasts until_ e.deadline) ∧
      ∀ ahead, ∃ cleared : Solo,
        (Operation.clear : Operation α).alone codec r ⟨after.store, now, ahead⟩ = (.ok none, cleared) ∧
        cleared.store.state.entries[r.trackingKey]? = none ∧
        ∀ key, own (r.storageKey key) →
          cleared.store.state.live cleared.now (r.storageKey key) = none := by
  intro after own now hle
  have hstart := tracks_of_new hnew fun _ => False
  obtain ⟨hafter, ends, htracks⟩ :=
    puts_track hkeys hsound hstart hok (fun _ _ _ h => h.elim) hpairs
  have hnow := htracks.later hle
  refine ⟨fun key e hown he => ?_, fun ahead => ?_⟩
  · obtain ⟨-, ⟨set, until_, hset, hin⟩, houtlasts⟩ := hnow.tracked _ e hown.1 hown.2 he
    rw [hset] at houtlasts
    exact ⟨set, until_, hset, hin, houtlasts⟩
  · obtain ⟨cleared, halone, -, -, -, hgone, hset⟩ :=
      clear_alone codec ⟨after.store, now, ahead⟩ hafter hnow
    exact ⟨cleared, halone, hset, fun key hown => hgone _ hown.1 hown.2⟩

/-- A short life, and a longer one that ends after it: the set lasts as long as the longer one. -/
theorem puts_tracked_longer :
    let r : Region := ⟨"n", some "n:", none⟩
    let puts : List (Put String) := [⟨some (.ofMillis 1), "a", "x"⟩, ⟨some (.ofMillis 2), "b", "y"⟩]
    let start : Solo := ⟨{ maxEntries := 10 }, 0, []⟩
    HasMember ((play .text (puts.map (Put.through r)) start).2.store.state.live 1500000 r.trackingKey)
      (Bytes.ofText (r.storageKey "b")) := by
  intro r puts start
  have hok : (play .text (puts.map (Put.through r)) start).1.all (fun o => o.result.isOk) = true := by
    decide +kernel
  have hpairs : (play .text (puts.map (Put.through r)) start).1.Pairwise fun o later =>
      GivesWay later.now o.ends later.ends := by decide +kernel
  have hle : (play .text (puts.map (Put.through r)) start).2.now ≤ 1500000 := by decide +kernel
  have hheld : ((play .text (puts.map (Put.through r)) start).2.store.state.live 1500000
    (r.storageKey "b")).isSome = true := by decide +kernel
  have hown : start.store.state.live start.now (r.storageKey "b") = none ∧
      r.storageKey "b" ≠ r.trackingKey := ⟨rfl, by decide⟩
  have htracked := puts_tracked start
    (fun _ _ => Region.storageKey_ne_trackingKey (r := r) rfl _) rfl rfl (List.all_eq_true.mp hok) hpairs
    1500000 hle
  obtain ⟨e, he⟩ := Option.isSome_iff_exists.mp hheld
  obtain ⟨set, until_, hset, hin, -⟩ := htracked.1 "b" e hown he
  exact ⟨set, until_, hset, hin⟩

/-- **A short life ends the tracking set of a longer one.** An entry is put for good, and then another one
for a millisecond. When that has passed, the first one is still there, but the tracking set is not, and a
clearing leaves the entry to be read. -/
theorem puts_not_tracked :
    let r : Region := ⟨"n", some "n:", none⟩
    let puts : List (Put String) := [⟨none, "a", "x"⟩, ⟨some (.ofMillis 1), "b", "y"⟩]
    let (history, after) := play .text (puts.map (Put.through r)) ⟨{ maxEntries := 10 }, 0, []⟩
    let cleared := ((Operation.clear : Operation String).alone .text r ⟨after.store, 1000000, []⟩).2
    history.all (fun o => o.result.isOk) = true ∧
      (after.store.state.live 1000000 "n:a").isSome = true ∧
      (after.store.state.live 1000000 "n~keys").isNone = true ∧
      ((Operation.get "a").alone .text r cleared).1 = .ok (some "x") := by
  decide +kernel

end WatchedStore.Cache
