import WatchedStore.Proofs.Cache.Timeline

/-!
# A region as a map

What a read has to answer is known from the operations before it alone: the last put of its key is looked
up that no eviction and no clearing has undone (`lastPut`), and it counts while the region's entries live
(`Operation.answer`). No store comes into that.

**The step law** (`Recalls.step`): an operation on a store that holds what was put answers so, and leaves a
store that holds what is put then. **The run law** (`region_recalls`): a region answers as the map does,
and nothing fails.
-/

namespace WatchedStore.Cache

open Memory WatchedStore.Action

/-- When a key was put last, and what, behind an operation. -/
def Operation.recall (now : Instant) (key : String) (last : Option (Instant × α)) :
    Operation α → Option (Instant × α)
  | .put k v => if k = key then some (now, v) else last
  | .get _ => last
  | .evict k => if k = key then none else last
  | .clear => none

/-- **The last put of a key**, if it has not been undone: when it was, and of what. -/
def lastPut (key : String) (history : List (Occurrence α)) : Option (Instant × α) :=
  history.foldl (fun last o => o.operation.recall o.now key last) none

/-- What is left of a put: its value, as long as less than the region's span has passed since. -/
def Region.remains (r : Region) (now : Instant) (put : Option (Instant × α)) : Option α :=
  put.bind fun (t, value) =>
    if r.expiration.all fun ttl => now < t + ttl.nanoseconds then some value else none

/-- **What a map answers** whose entries live as long as the region's: to a read what is left of the last
put, and nothing to all else. -/
def Operation.answer (r : Region) (now : Instant) (last : String → Option (Instant × α)) :
    Operation α → Option α
  | .get key => r.remains now (last key)
  | _ => none

variable {codec : Codec α} {r : Region} {now : Instant}

/-! ## One key -/

/-- What is stored for a key that was last put so. -/
inductive Holds (codec : Codec α) (r : Region) (now : Instant) :
    Option (Instant × α) → Option Entry → Prop
  | absent : Holds codec r now none none
  | put {t : Instant} {v : α} {json : Bytes} (hencode : codec.encode v = .ok json)
    (hread : codec.reader.run json = .ok v) : Holds codec r now (some (t, v))
      ((some ⟨.bytes json, r.expiration.map fun ttl => t + ttl.nanoseconds⟩).filter
        (!·.isExpired now))

theorem Holds.later {later : Instant} {put : Option (Instant × α)} {held : Option Entry}
    (h : Holds codec r now put held) (hle : now ≤ later) :
    Holds codec r later put (held.filter (!·.isExpired later)) := by
  cases h with
  | absent => exact .absent
  | put hencode hread =>
    rw [← TimedMap.filter_of_later fun _ => Entry.not_isExpired_of_later hle]
    exact .put hencode hread

/-- **A read answers what is left of a put.** -/
theorem Holds.read {put : Option (Instant × α)} {held : Option Entry} (h : Holds codec r now put held) :
    (Rule.get held false).1.bind codec.decode = .ok (r.remains now put) := by
  cases h with
  | absent => rfl
  | @put t value json hencode hread =>
    have hdecode : codec.decode (some json) = .ok (some value) := by
      unfold Codec.decode
      dsimp only
      rw [hread]
    have halive : (!(⟨.bytes json, r.expiration.map fun ttl => t + ttl.nanoseconds⟩ : Entry).isExpired now)
        = r.expiration.all fun ttl => now < t + ttl.nanoseconds := by
      unfold Entry.isExpired
      cases r.expiration with
      | none => rfl
      | some ttl => simp [← decide_not]
    rw [Option.filter_some, halive, Region.remains, Option.bind_some]
    dsimp only
    split
    · exact hdecode
    · rfl

/-! ## All keys -/

/-- **A store that holds what was put**, with the tracking set in order. -/
structure Recalls (codec : Codec α) (r : Region) (last : String → Option (Instant × α)) (now : Instant)
    (s : Store) : Prop where
  sound : s.poisoned = false
  tracks : Tracks r (fun _ => True) (r.ends now) now (s.state.live now)
  held : ∀ key, r.storageKey key ≠ r.trackingKey →
    Holds codec r now (last key) (s.state.live now (r.storageKey key))

namespace Recalls

variable {last : String → Option (Instant × α)} {solo : Solo} {key : String} {value : α}

theorem next (h : Recalls codec r last solo.now solo.store) :
    Recalls codec r last solo.next.now solo.next.store where
  sound := (Solo.poisoned_next solo).trans h.sound
  tracks := (tracks_next h.tracks).mono fun _ hd => r.ends_later hd solo.next_le
  held key hkey := by
    rw [solo.live_next]
    exact (h.held key hkey).later solo.next_le

theorem get (h : Recalls codec r last solo.now solo.store) (hkey : r.storageKey key ≠ r.trackingKey) :
    ∃ after : Solo, (Operation.get key).alone codec r solo =
        (.ok ((Operation.get key).answer r after.now last), after) ∧
      Recalls codec r last after.now after.store := by
  obtain ⟨after, halone, hnow, hsound, hlive⟩ := get_alone h.sound codec r key
  have hnext := h.next
  refine ⟨after, ?_, hsound, ?_, fun k hk => ?_⟩
  · rw [halone, (hnext.held key hkey).read, hnow]
    rfl
  · rw [hlive, hnow]
    exact hnext.tracks
  · rw [hlive, hnow]
    exact hnext.held k hk

theorem evict (h : Recalls codec r last solo.now solo.store) (hkey : r.storageKey key ≠ r.trackingKey) :
    ∃ after : Solo, (Operation.evict key).alone codec r solo = (.ok none, after) ∧
      Recalls codec r (fun k => (Operation.evict key).recall after.now k (last k)) after.now after.store := by
  have hnext := h.next
  obtain ⟨after, halone, hnow, hsound, htracks, hgone, hothers⟩ := evict_alone h.sound h.tracks codec hkey
  refine ⟨after, halone, hsound, htracks.mono fun _ hd => r.ends_later hd (hnow ▸ solo.next_le),
    fun k hk => ?_⟩
  unfold Operation.recall
  dsimp only
  by_cases hsame : key = k
  · subst hsame
    rw [if_pos rfl, hgone]
    exact .absent
  · rw [if_neg hsame, hothers _ (fun heq => hsame (r.storageKey_injective heq).symm) hk, hnow]
    exact hnext.held k hk

theorem clear (h : Recalls codec r last solo.now solo.store) :
    ∃ after : Solo, (Operation.clear : Operation α).alone codec r solo = (.ok none, after) ∧
      Recalls codec r (fun _ => none) after.now after.store := by
  obtain ⟨after, halone, hle, hsound, htracks, hgone, -⟩ := clear_alone codec solo h.sound h.tracks
  refine ⟨after, halone, hsound, htracks.mono fun _ hd => r.ends_later hd hle, fun k hk => ?_⟩
  rw [hgone _ trivial hk]
  exact .absent

theorem put (h : Recalls codec r last solo.now solo.store) (hkey : r.storageKey key ≠ r.trackingKey)
    (hreturns : codec.Returns value)
    (hend : r.Representable ((Operation.put key value).alone codec r solo).2.now)
    (hroom : ((Operation.put key value).alone codec r solo).2.store.state.entries.size <
      solo.store.maxEntries) :
    ∃ after : Solo, (Operation.put key value).alone codec r solo = (.ok none, after) ∧
      Recalls codec r (fun k => (Operation.put key value).recall after.now k (last k)) after.now
        after.store := by
  obtain ⟨json, hencode, hread⟩ := hreturns
  obtain ⟨hleft, hok, -⟩ := put_alone key hencode r solo
  have hnext := h.next
  have hgives : ∀ until_, State.deadline r.expiration solo.next.now = .ok until_ →
      ∀ d, r.ends solo.next.now d → GivesWay solo.next.now d until_ :=
    fun _ hdeadline _ hd => r.ends_giveWay hd hdeadline
  rw [hleft] at hend hroom
  -- there is room behind the batch, so nothing in it has been refused
  have hgood : succeeds (solo.call (.request (.batch (r.putCommands key json)))).1 = true := by
    have hcall : solo.call (.request (.batch (r.putCommands key json))) = _ :=
      congrArg (fun result => (result.1, { solo.next with store := result.2 }))
        (batch_of_sound hnext.sound (r.putCommands key json))
    rw [hcall] at hend hroom ⊢
    exact putCommands_succeed hnext.tracks.held hkey hend
      (Nat.lt_of_lt_of_eq hroom (Solo.maxEntries_next solo).symm)
  obtain ⟨hafter, hcarries⟩ := batch_of_succeeds hnext.sound hgood
  obtain ⟨until_, set, hdeadline, hentry, -, -, hothers⟩ := hnext.tracks.carries_put hkey hcarries hgives
  refine ⟨_, Prod.ext (hok hgood) hleft, hafter, (hnext.tracks.put hkey hcarries hgives).mono fun _ hd =>
    hd.elim id r.ends_of_deadline, fun k hk => ?_⟩
  unfold Operation.recall
  dsimp only
  by_cases hsame : key = k
  · subst hsame
    have hentry' := (eq_of_deadline hdeadline) ▸ hentry
    rw [if_pos rfl]
    exact hentry' ▸ .put hencode hread
  · have hne : r.storageKey k ≠ r.storageKey key := fun heq => hsame (r.storageKey_injective heq).symm
    rw [if_neg hsame]
    exact hothers _ hne hk ▸ hnext.held k hk

/-- **Every operation answers as the map does**, and leaves what is put then. -/
theorem step {op : Operation α} (h : Recalls codec r last solo.now solo.store)
    (hkey : ∀ key, op.key? = some key → r.storageKey key ≠ r.trackingKey)
    (hput : ∀ key value, op = .put key value →
      codec.Returns value ∧ r.Representable (op.alone codec r solo).2.now)
    (hroom : (op.alone codec r solo).2.store.state.entries.size < solo.store.maxEntries) :
    ∃ after : Solo, op.alone codec r solo = (.ok (op.answer r after.now last), after) ∧
      Recalls codec r (fun key => op.recall after.now key (last key)) after.now after.store := by
  cases op with
  | put key value =>
    obtain ⟨hreturns, hend⟩ := hput key value rfl
    exact h.put (hkey key rfl) hreturns hend hroom
  | get key => exact h.get (hkey key rfl)
  | evict key => exact h.evict (hkey key rfl)
  | clear => exact h.clear

end Recalls

theorem maxEntries_alone (codec : Codec α) (r : Region) (op : Operation α) (solo : Solo) :
    (op.alone codec r solo).2.store.maxEntries = solo.store.maxEntries :=
  Solo.maxEntries_run _ solo

/-- What a region answers from here on, if its store holds what was put. -/
theorem Recalls.play {last : String → Option (Instant × α)} {solo : Solo} {operations : List (Operation α)}
    (h : Recalls codec r last solo.now solo.store)
    (hkeys : ∀ op ∈ operations, ∀ key, op.key? = some key → r.storageKey key ≠ r.trackingKey)
    (hreturns : ∀ key value, .put key value ∈ operations → codec.Returns value)
    (hroom : ∀ o ∈ (Cache.play codec (operations.map (r, ·)) solo).1, o.size < solo.store.maxEntries)
    (hends : ∀ o ∈ (Cache.play codec (operations.map (r, ·)) solo).1, ∀ key value,
      o.operation = .put key value → r.Representable o.now) :
    ∀ before o rest, (Cache.play codec (operations.map (r, ·)) solo).1 = before ++ o :: rest →
      o.result = .ok (o.operation.answer r o.now fun key =>
        before.foldl (fun last o => o.operation.recall o.now key last) (last key)) := by
  induction operations generalizing solo last with
  | nil => exact fun before o rest heq => by simp [Cache.play] at heq
  | cons op operations ih =>
    rw [List.map_cons, Cache.play] at hroom hends ⊢
    dsimp only at hroom hends ⊢
    obtain ⟨hroom₁, hroomRest⟩ := List.forall_mem_cons.mp hroom
    obtain ⟨hend₁, hendsRest⟩ := List.forall_mem_cons.mp hends
    obtain ⟨hkey₁, hkeysRest⟩ := List.forall_mem_cons.mp hkeys
    have hmax := maxEntries_alone codec r op solo
    obtain ⟨after, halone, hafter⟩ := h.step hkey₁ (fun key value hop =>
      ⟨hreturns key value (hop ▸ List.mem_cons_self), hend₁ key value hop⟩) hroom₁
    rw [halone] at hroomRest hendsRest hmax ⊢
    have hrest := ih hafter hkeysRest (fun key value hmem => hreturns key value (List.mem_cons_of_mem _ hmem))
      (hmax ▸ hroomRest) hendsRest
    rintro (_ | ⟨first, before⟩) o rest heq
    · obtain ⟨rfl, -⟩ := List.cons.inj heq
      rfl
    · obtain ⟨rfl, htail⟩ := List.cons.inj heq
      exact hrest before o rest htail

theorem operations_play (operations : List (Operation α)) (solo : Solo) :
    (play codec (operations.map (r, ·)) solo).1.map Occurrence.operation = operations := by
  induction operations generalizing solo with
  | nil => rfl
  | cons op rest ih =>
    rw [List.map_cons, play]
    exact congrArg (op :: ·) (ih _)

/-- **A region behaves as a map whose entries live for a while.** Let one client put, read, evict and clear
in a region, over a store that is empty at first, with time passing and clean-ups before each call; let no
key that is used look like the tracking key, let the values be read back from their texts, let all deadlines
be such that the clock can show them, and let there be room left in the store throughout. Then nothing
fails, and a read answers a value exactly if it is that of the last put of its key that no eviction and no
clearing has undone, and less than the region's span has passed since then. -/
theorem region_recalls {codec : Codec α} {r : Region} (operations : List (Operation α)) (max : Nat)
    (t : Instant) (ahead : List (List Meanwhile))
    (hkeys : ∀ op ∈ operations, ∀ key, op.key? = some key → r.storageKey key ≠ r.trackingKey)
    (hreturns : ∀ key value, .put key value ∈ operations → codec.Returns value)
    (hroom : ∀ o ∈ (play codec (operations.map (r, ·)) ⟨{ maxEntries := max }, t, ahead⟩).1, o.size < max)
    (hends : ∀ o ∈ (play codec (operations.map (r, ·)) ⟨{ maxEntries := max }, t, ahead⟩).1,
      ∀ key value, o.operation = .put key value → r.Representable o.now) :
    let history := (play codec (operations.map (r, ·)) ⟨{ maxEntries := max }, t, ahead⟩).1
    history.map Occurrence.operation = operations ∧
      ∀ before o rest, history = before ++ o :: rest →
        o.result = .ok (o.operation.answer r o.now fun key => lastPut key before) := by
  have hempty : Recalls codec r (fun _ => none) t { maxEntries := max } := by
    have hnew : ∀ key, ({} : State).live t key = none := fun _ => rfl
    have hall : (fun key => ({} : State).live t key = none) = fun _ => True :=
      funext fun key => eq_true (hnew key)
    exact ⟨rfl, hall ▸ tracks_of_new (hnew _) _, fun key _ => (hnew (r.storageKey key)).symm ▸ .absent⟩
  exact ⟨operations_play operations _, hempty.play hkeys hreturns hroom hends⟩

/-- An entry is read while it lives, and not afterwards; one that is put again is gone after a clearing. -/
theorem region_recalls_while_alive :
    let r : Region := ⟨"n", some "n:", some (.ofMillis 2)⟩
    let operations : List (Operation String) :=
      [.put "a" "x", .get "a", .get "a", .put "a" "y", .clear, .get "a"]
    let ahead : List (List Meanwhile) := [[], [.pass 1500000, .cleanUp], [.pass 500000]]
    let history := (play .text (operations.map (r, ·)) ⟨{ maxEntries := 10 }, 0, ahead⟩).1
    history[1]?.map Occurrence.result = some (.ok (some "x")) ∧
      history[2]?.map Occurrence.result = some (.ok none) ∧
      history[5]?.map Occurrence.result = some (.ok none) := by
  intro r operations ahead history
  have hroom : history.all (fun o => o.size < 10) = true := by decide
  have hends : history.all (fun o => (Instant.after? o.now (.ofMillis 2)).isSome) = true := by decide
  obtain ⟨-, hanswers⟩ := region_recalls operations 10 0 ahead
    (fun _ _ key _ => Region.storageKey_ne_trackingKey rfl key)
    (fun key value hput => by
      simp only [operations, List.mem_cons, Operation.put.injEq, List.not_mem_nil, reduceCtorEq, or_false,
        false_or] at hput
      obtain ⟨-, rfl⟩ | ⟨-, rfl⟩ := hput <;> exact ⟨_, rfl, rfl⟩)
    (fun o ho => of_decide_eq_true (List.all_eq_true.mp hroom o ho))
    (fun o ho _ _ _ ttl httl => Option.some.inj httl ▸ List.all_eq_true.mp hends o ho)
  have hanswer : ∀ (i : Fin history.length) (answer : Option String),
      (history.get i).operation.answer r (history.get i).now (fun key => lastPut key (history.take i)) =
        answer → history[i.val]?.map Occurrence.result = some (.ok answer) := by
    rintro i _ rfl
    have hsplit : history = history.take i ++ history.get i :: history.drop (i + 1) := by simp
    rw [List.getElem?_eq_getElem i.isLt]
    exact congrArg some (hanswers _ _ _ hsplit)
  exact ⟨hanswer ⟨1, by decide⟩ _ (by decide +kernel), hanswer ⟨2, by decide⟩ _ (by decide +kernel),
    hanswer ⟨5, by decide⟩ _ (by decide +kernel)⟩

end WatchedStore.Cache
