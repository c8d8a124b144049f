import WatchedStore.Proofs.Memory.Deed

/-!
# Well-formed stores

Entries, versions and the clock are kept apart and updated by hand, by twelve operations. `WellFormed`
says how they hang together: there are no more keys than there is room for, no set is empty, a stored key
has a version, no version is ahead of the clock, and no two keys share one.

Two things keep it: a rule stores no empty set, and makes no new key in a full store (`Rule.Admits`); and
a version that is given out is newer than the clock. An entry that goes without a new version does no harm
here, for the versions that are left are the ones there were.

**The laws**: every operation, batch, commit and clean-up keeps contents well formed
(`State.WellFormed.follow` to `State.WellFormed.exec`), every deed a store (`Store.WellFormed.perform`), so
every reachable store is well formed (`Reachable.wellFormed`).
-/

namespace WatchedStore.Memory

/-- **Entries, versions and clock that fit together**, in a store with room for `max` keys. -/
structure State.WellFormed (max : Nat) (s : State) : Prop where
  bounded : s.entries.size ≤ max
  filled : ∀ (key : String) (e : Entry), s.entries[key]? = some e → e.Filled
  recorded : ∀ key : String, key ∈ s.entries → ∃ v, s.versions[key]? = some v ∧ 1 ≤ v ∧ v ≤ s.clock
  dated : ∀ (key : String) (v : Nat), s.versions[key]? = some v → v ≤ s.clock
  distinct : ∀ key key', s.version key ≠ 0 → s.version key = s.version key' → key = key'

/-- What becomes of an entry without an empty set or a key too many. -/
def Update.Admissible (held : Option Entry) (full : Bool) : Update → Prop
  | .put e => e.Filled ∧ (held = none → full = false)
  | .keep | .drop | .erase => True

/-- **A rule that stores no empty set, and makes no new key in a full store.** -/
def Rule.Admits (rule : Rule α) : Prop :=
  ∀ held full, (∀ e : Entry, held = some e → e.Filled) → (rule held full).2.Admissible held full

/-! ## Rules -/

namespace Rule

theorem filled_bytes (b : Bytes) (until_ : Option Instant) : Entry.Filled ⟨.bytes b, until_⟩ :=
  fun _ h => by cases h

theorem filled_insert (set : Std.ExtTreeSet Bytes) (member : Bytes) (until_ : Option Instant) :
    Entry.Filled ⟨.members (set.insert member), until_⟩ := by
  intro inserted h
  cases h
  refine Bool.eq_false_iff.mpr fun hempty => ?_
  have hmem : member ∈ set.insert member := Std.ExtTreeSet.mem_insert_self
  rw [Std.ExtTreeSet.isEmpty_iff.mp hempty] at hmem
  exact Std.ExtTreeSet.not_mem_empty hmem

/-- A rule that never touches its key admits nothing. -/
theorem admits_of_idle {rule : Rule α} (h : rule.Shows fun _ => False) : rule.Admits := by
  intro held full _
  have hidle := (h held full).1.mp
  cases hupdate : (rule held full).2 with
  | put e =>
    rw [hupdate] at hidle
    exact (hidle trivial).elim
  | _ => trivial

theorem set_admits (value : Bytes) (ttl : Option Duration) (now : Instant) :
    (set value ttl now).Admits := by
  intro held full _
  unfold set
  cases full with
  | true => trivial
  | false =>
    cases State.deadline ttl now with
    | error e => trivial
    | ok until_ => exact ⟨filled_bytes value until_, fun _ => rfl⟩

theorem getSet_admits (value : Bytes) : (getSet value).Admits := by
  intro held full _
  unfold getSet
  cases (get held full).1 with
  | error e => trivial
  | ok previous =>
    cases full with
    | true => trivial
    | false => exact ⟨filled_bytes value none, fun _ => rfl⟩

theorem store_admits (sum? : Option Int64) (until_ : Option Instant) {held : Option Entry}
    {full : Bool} (hroom : held = none → full = false) :
    (store sum? until_).2.Admissible held full := by
  cases sum? with
  | none => trivial
  | some sum => exact ⟨filled_bytes (Counter.encode sum) until_, hroom⟩

theorem increment_admits (key : String) (amount : Int64) : (increment key amount).Admits := by
  intro held full _
  unfold increment
  cases held with
  | none =>
    cases full with
    | true => trivial
    | false => exact store_admits _ none fun _ => rfl
  | some e =>
    obtain ⟨value, until_⟩ := e
    cases value with
    | members set => trivial
    | bytes b =>
      dsimp only
      cases Counter.decode key b with
      | error e => trivial
      | ok current => exact store_admits _ until_ fun h => by cases h

theorem expire_admits (ttl : Duration) (now : Instant) : (expire ttl now).Admits := by
  intro held full hheld
  unfold expire
  cases held with
  | none => trivial
  | some e =>
    dsimp only
    cases State.deadline (some ttl) now with
    | error e => trivial
    | ok until_ => exact ⟨hheld e rfl, fun h => by cases h⟩

theorem delete_admits : delete.Admits := by
  intro held full _
  cases held <;> trivial

theorem setAdd_admits (member : Bytes) : (setAdd member).Admits := by
  intro held full _
  unfold setAdd
  cases held with
  | none =>
    cases full with
    | true => trivial
    | false => exact ⟨filled_insert ∅ member none, fun _ => rfl⟩
  | some e =>
    obtain ⟨value, until_⟩ := e
    cases value with
    | bytes b => trivial
    | members set =>
      dsimp only
      cases set.contains member with
      | true => trivial
      | false => exact ⟨filled_insert set member until_, fun h => by cases h⟩

theorem setRemove_admits (member : Bytes) : (setRemove member).Admits := by
  intro held full _
  unfold setRemove
  cases held with
  | none => trivial
  | some e =>
    obtain ⟨value, until_⟩ := e
    cases value with
    | bytes b => trivial
    | members set =>
      dsimp only
      cases set.contains member with
      | false => cases (set.erase member).isEmpty <;> trivial
      | true =>
        cases hempty : (set.erase member).isEmpty with
        | true => trivial
        | false =>
          refine ⟨fun left h => ?_, fun h => by cases h⟩
          cases h
          exact hempty

theorem Decides.admits {now : Instant} {r : Request} {key : String} {rule : Rule r.Answer}
    (h : Decides now r key rule) : rule.Admits := by
  cases h with
  | get => exact admits_of_idle get_shows
  | contains => exact admits_of_idle contains_shows
  | setMembers => exact admits_of_idle setMembers_shows
  | set _ value ttl => exact set_admits value ttl now
  | getSet _ value => exact getSet_admits value
  | increment _ amount => exact increment_admits key amount
  | decrement => exact increment_admits key _
  | expire _ ttl => exact expire_admits ttl now
  | delete => exact delete_admits
  | setAdd _ member => exact setAdd_admits member
  | setRemove _ member => exact setRemove_admits member

theorem ofCommand_admits (now : Instant) (c : Command) : (ofCommand now c).Admits := by
  -- the reply is told another way, what becomes of the entry is the same
  cases c with
  | get key => exact fun held full h => admits_of_idle get_shows held full h
  | set key value ttl => exact fun held full h => set_admits value ttl now held full h
  | increment key amount => exact fun held full h => increment_admits key amount held full h
  | expire key ttl => exact fun held full h => expire_admits ttl now held full h
  | delete key => exact fun held full h => delete_admits held full h
  | setAdd key member => exact fun held full h => setAdd_admits member held full h
  | setRemove key member => exact fun held full h => setRemove_admits member held full h

end Rule

/-! ## Contents -/

namespace State.WellFormed

variable {max : Nat} {s s' : State} {key : String} {now : Instant}

theorem empty (max : Nat) : ({} : State).WellFormed max where
  bounded := Nat.zero_le max
  filled key e h := by
    rw [show ({} : State).entries[key]? = none from Std.ExtTreeMap.getElem?_empty] at h
    cases h
  recorded key h := absurd h Std.ExtTreeMap.not_mem_empty
  dated key v h := by
    rw [show ({} : State).versions[key]? = none from Std.ExtTreeMap.getElem?_empty] at h
    cases h
  distinct key key' h := by
    exact absurd rfl h

theorem version_touch (s : State) (key k : String) :
    (s.touch key).version k = if key = k then s.clock + 1 else s.version k := by
  simp only [State.version, State.touch, Std.ExtTreeMap.getElem?_insert,
    Std.LawfulEqCmp.compare_eq_iff_eq]
  split <;> rfl

theorem filled_live (h : s.WellFormed max) {e : Entry} (he : s.live now key = some e) : e.Filled :=
  h.filled key e (Option.filter_eq_some_iff.mp he).1

theorem version_le (h : s.WellFormed max) (key : String) : s.version key ≤ s.clock := by
  unfold State.version
  cases hv : s.versions[key]? with
  | none => exact Nat.zero_le _
  | some v => exact h.dated key v hv

/-- **A key with a new version** leaves the versions in order, whatever becomes of its entry. -/
theorem touch {entries : Std.ExtTreeMap String Entry} (h : s.WellFormed max)
    (hbounded : entries.size ≤ max) (hfilled : ∀ (k : String) (e : Entry), entries[k]? = some e → e.Filled)
    (hkeys : ∀ k : String, k ∈ entries → k ≠ key → k ∈ s.entries) :
    (State.touch { s with entries } key).WellFormed max where
  bounded := hbounded
  filled := hfilled
  recorded k hk := by
    simp only [State.touch, Std.ExtTreeMap.getElem?_insert, Std.LawfulEqCmp.compare_eq_iff_eq]
    by_cases hkey : key = k
    · exact ⟨s.clock + 1, if_pos hkey, by omega, Nat.le_refl _⟩
    · obtain ⟨v, hv, hpos, hle⟩ := h.recorded k (hkeys k hk (Ne.symm hkey))
      exact ⟨v, (if_neg hkey).trans hv, hpos, by omega⟩
  dated k v hv := by
    simp only [State.touch, Std.ExtTreeMap.getElem?_insert, Std.LawfulEqCmp.compare_eq_iff_eq] at hv ⊢
    by_cases hkey : key = k
    · rw [if_pos hkey] at hv
      cases hv
      exact Nat.le_refl _
    · rw [if_neg hkey] at hv
      exact Nat.le_succ_of_le (h.dated k v hv)
  distinct k k' hne heq := by
    have hversion : ∀ k, (State.touch { s with entries } key).version k =
        if key = k then s.clock + 1 else s.version k := version_touch { s with entries } key
    rw [hversion k] at hne heq
    rw [hversion k'] at heq
    -- the new version is ahead of all others
    have hk := h.version_le k
    have hk' := h.version_le k'
    by_cases hkey : key = k
    · by_cases hkey' : key = k'
      · exact hkey.symm.trans hkey'
      · rw [if_pos hkey, if_neg hkey'] at heq
        omega
    · rw [if_neg hkey] at hne heq
      by_cases hkey' : key = k'
      · rw [if_pos hkey'] at heq
        omega
      · rw [if_neg hkey'] at heq
        exact h.distinct k k' hne heq

theorem put {e : Entry} (h : s.WellFormed max) (hfilled : e.Filled)
    (hroom : s.isFull key max = false) : (s.put key e).WellFormed max := by
  refine h.touch ?_ (fun k e' hk => ?_) fun k hk hne => ?_
  · rw [Std.ExtTreeMap.size_insert]
    have hbounded := h.bounded
    cases hin : s.entries.contains key with
    | true => exact hbounded
    | false =>
      simp only [isFull, hin, Bool.not_false, Bool.and_true, decide_eq_false_iff_not] at hroom
      simp only [Bool.false_eq_true, if_false]
      omega
  · rw [Std.ExtTreeMap.getElem?_insert] at hk
    split at hk
    · cases hk
      exact hfilled
    · exact h.filled k e' hk
  · rw [Std.ExtTreeMap.mem_insert, Std.LawfulEqCmp.compare_eq_iff_eq] at hk
    exact hk.resolve_left (Ne.symm hne)

theorem remove (h : s.WellFormed max) (key : String) : (s.remove key).WellFormed max := by
  refine h.touch ?_ (fun k e hk => ?_) fun k hk _ => ?_
  · exact Nat.le_trans Std.ExtTreeMap.size_erase_le h.bounded
  · rw [Std.ExtTreeMap.getElem?_erase] at hk
    split at hk
    · cases hk
    · exact h.filled k e hk
  · exact (Std.ExtTreeMap.mem_erase.mp hk).2

/-- An entry may go without a new version for its key. -/
theorem erase (h : s.WellFormed max) (key : String) : (s.erase key).WellFormed max where
  bounded := Nat.le_trans Std.ExtTreeMap.size_erase_le h.bounded
  filled k e hk := by
    rw [entries_erase] at hk
    split at hk
    · cases hk
    · exact h.filled k e hk
  recorded k hk := h.recorded k (Std.ExtTreeMap.mem_erase.mp hk).2
  dated := h.dated
  distinct := h.distinct

theorem purge (h : s.WellFormed max) (key : String) (now : Instant) :
    (s.purge key now).WellFormed max := by
  by_cases hover : s.Overdue key now
  · rw [purge_of_overdue hover]
    exact h.remove key
  · rw [purge_of_not_overdue hover]
    exact h

theorem update {u : Update} (h : s.WellFormed max)
    (hu : u.Admissible s.entries[key]? (s.isFull key max)) : (s.update key u).WellFormed max := by
  cases u with
  | keep => exact h
  | drop => exact h.remove key
  | erase => exact h.erase key
  | put e =>
    refine h.put hu.1 ?_
    cases hheld : s.entries[key]? with
    | none => exact hu.2 hheld
    | some e' =>
      -- a key that is there needs no room
      have hin : s.entries.contains key = true := by
        rw [Std.ExtTreeMap.contains_eq_isSome_getElem?, hheld]
        rfl
      simp only [isFull, hin, Bool.not_true, Bool.and_false]

/-- **An operation keeps contents well formed**, if its rule admits nothing else. -/
theorem follow {rule : Rule α} (h : s.WellFormed max) (hrule : rule.Admits) (key : String)
    (now : Instant) : (s.follow rule key max now).2.WellFormed max := by
  have hpurged := h.purge key now
  exact hpurged.update (hrule _ _ (hpurged.filled key))

/-- **In well-formed contents a set is removed with its last member only**: where no member goes, nothing
happens behind the purge. -/
theorem setRemove_eq (h : s.WellFormed max) (key : String) (member : Bytes) (now : Instant) :
    s.setRemove key member now =
      match (s.purge key now).entries[key]? with
      | some ⟨.members set, until_⟩ =>
        if set.contains member then
          if (set.erase member).isEmpty then (.ok true, (s.purge key now).remove key)
          else (.ok true, (s.purge key now).put key ⟨.members (set.erase member), until_⟩)
        else (.ok false, s.purge key now)
      | some ⟨.bytes _, _⟩ => (.error .wrongType, s.purge key now)
      | none => (.ok false, s.purge key now) := by
  rw [setRemove_eq_follow s key max]
  unfold State.follow
  dsimp only
  cases hheld : (s.purge key now).entries[key]? with
  | none => rfl
  | some e =>
    obtain ⟨value, until_⟩ := e
    cases value with
    | bytes b => rfl
    | members set =>
      have hfilled : set.isEmpty = false := (h.purge key now).filled key _ hheld set rfl
      dsimp only
      cases hin : set.contains member with
      | false =>
        rw [Rule.setRemove_of_not_contains hin, hfilled]
        rfl
      | true =>
        simp only [Rule.setRemove, hin, if_true]
        cases (set.erase member).isEmpty <;> rfl

theorem apply (h : s.WellFormed max) (c : Command) (now : Instant) :
    (s.apply c max now).2.WellFormed max := by
  rw [apply_eq_follow]
  exact h.follow (Rule.ofCommand_admits now c) c.key now

theorem applyAll (h : s.WellFormed max) (commands : List Command) (now : Instant) :
    (s.applyAll commands max now).2.WellFormed max := by
  induction commands generalizing s with
  | nil => exact h
  | cons c rest ih =>
    by_cases hcrash : ∃ reason, (s.apply c max now).1 = .error (.crash reason)
    · obtain ⟨reason, hreason⟩ := hcrash
      rw [applyAll_cons_crash s max now c rest hreason]
      exact h.apply c now
    · rw [applyAll_cons s max now c rest fun reason h => hcrash ⟨reason, h⟩, applyAll.cons_snd]
      exact ih (h.apply c now)

theorem purges (h : s.WellFormed max) (hpurges : Purges now s s') : s'.WellFormed max := by
  induction hpurges with
  | refl => exact h
  | purge _ key ih => exact ih.purge key now

theorem exec (h : s.WellFormed max) (watched : List (String × Nat)) (commands : List Command)
    (now : Instant) : (s.exec watched commands max now).2.WellFormed max := by
  have hchecked := h.purges (s.unchanged_purges now watched)
  rw [exec_eq]
  split
  · exact hchecked.applyAll commands now
  · exact hchecked

end State.WellFormed

/-! ## Stores -/

namespace Store

/-- A store whose contents are well formed for its capacity. -/
def WellFormed (s : Store) : Prop := s.state.WellFormed s.maxEntries

variable {s : Store}

theorem WellFormed.locked {f : State → Except Error α × State} (h : s.WellFormed)
    (hf : (f s.state).2.WellFormed s.maxEntries) : (s.locked f).2.WellFormed := by
  cases hp : s.poisoned with
  | true =>
    rw [locked_of_poisoned hp]
    exact h
  | false =>
    rw [locked_of_sound hp]
    exact hf

theorem WellFormed.request (h : s.WellFormed) (now : Instant) (r : Request) :
    (s.request now r).2.WellFormed := by
  rcases Rule.ruled_or_refused_or_batch now r with ⟨key, rule, hrule⟩ | hrefused | ⟨commands, rfl⟩
  · rw [request_eq_follow hrule]
    exact h.locked (State.WellFormed.follow h hrule.admits key now)
  · rw [hrefused]
    exact h
  · exact h.locked (State.WellFormed.applyAll h commands now)

theorem WellFormed.call (h : s.WellFormed) (now : Instant) (c : Call Transaction) :
    (s.call now c).2.WellFormed := by
  cases c with
  | request r => exact h.request now r
  | watch keys => exact h.locked (State.WellFormed.purges h (s.state.watch_purges now keys))
  | txGet tx key =>
    rw [txGet_eq_follow]
    exact h.locked (State.WellFormed.follow h (Rule.admits_of_idle Rule.get_shows) key now)
  | exec tx commands => exact h.locked (State.WellFormed.exec h tx.watched commands now)
  | discard tx => exact h

/-- **Whatever happens to a well-formed store leaves it well formed.** -/
theorem WellFormed.perform (h : s.WellFormed) (now : Instant) (d : Deed) :
    (s.perform now d).WellFormed := by
  cases d with
  | call c => exact h.call now c
  | cleanUp =>
    simp only [Store.perform]
    split
    · exact h
    · exact State.WellFormed.purges h (s.state.purgeAll_purges now)

end Store

theorem Reaches.wellFormed {t t' : Instant} {s s' : Store} (h : Reaches t s t' s') (hs : s.WellFormed) :
    s'.WellFormed := by
  induction h with
  | refl => exact hs
  | wait _ _ ih => exact ih
  | @deed t' s' _ d ih => exact ih.perform t' d

theorem Reachable.wellFormed {t : Instant} {s : Store} (h : Reachable t s) : s.WellFormed := by
  obtain ⟨max, hr⟩ := h
  exact hr.wellFormed (State.WellFormed.empty max)

/-! ## Capacity -/

namespace Store

theorem maxEntries_locked (f : State → Except Error α × State) (s : Store) :
    (s.locked f).2.maxEntries = s.maxEntries := by
  cases hp : s.poisoned with
  | true => rw [locked_of_poisoned hp]
  | false => rw [locked_of_sound hp]

/-- Nothing that happens to a store changes its capacity. -/
theorem maxEntries_perform (s : Store) (now : Instant) (d : Deed) :
    (s.perform now d).maxEntries = s.maxEntries := by
  cases d with
  | cleanUp =>
    simp only [perform]
    split <;> rfl
  | call c =>
    cases c with
    | request r =>
      rcases Rule.ruled_or_refused_or_batch now r with ⟨key, rule, hrule⟩ | hrefused | ⟨cs, rfl⟩
      · simp only [perform, call, request_eq_follow hrule, maxEntries_locked]
      · simp only [perform, call, hrefused]
      · exact maxEntries_locked ..
    | discard tx => rfl
    | _ => exact maxEntries_locked ..

end Store

theorem Reaches.maxEntries {t t' : Instant} {s s' : Store} (h : Reaches t s t' s') :
    s'.maxEntries = s.maxEntries := by
  induction h with
  | refl => rfl
  | wait _ _ ih => exact ih
  | @deed t' s' _ d ih => exact (s'.maxEntries_perform t' d).trans ih

end WatchedStore.Memory
