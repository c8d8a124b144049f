import WatchedStore.Proofs.Cache.Timeline

/-!
# Neighbours in one key space

All regions of a manager keep their entries and their tracking sets in one flat space of keys. Where one
region's storage key is another's key, too, an eviction or a clearing in the one takes what belongs to the
other (`neighbour_lost`).

**The law** (`neighbours_kept`): that is all that can go wrong. An eviction and a clearing leave every key
as it was that is no storage key of an entry put in that region before, or evicted now. With prefixes of
which none begins with another no storage key belongs to two regions.
-/

namespace WatchedStore.Memory

/-- **What the calls of a kind keep, a program keeps** that a client runs alone and that makes such calls
only, as long as its answers are of the kind that it relies on. -/
theorem Relies.alone {P : Call Transaction → Prop} {Q : (c : Call Transaction) → Except Error c.Answer → Prop}
    {I : Instant → Store → Prop} {p : Program Transaction α} {solo : Solo} (h : Relies P Q p)
    (hwait : ∀ {now later s}, I now s → now ≤ later → I later s)
    (hcleanUp : ∀ {now s}, I now s → I now (s.perform now .cleanUp))
    (hcall : ∀ {now s} (c : Call Transaction), I now s → P c → I now (s.call now c).2 ∧ Q c (s.call now c).1)
    (hstart : I solo.now solo.store) :
    I (p.run Solo.backend solo).2.now (p.run Solo.backend solo).2.store := by
  induction h generalizing solo with
  | done => exact hstart
  | @call c next hc _ ih =>
    obtain ⟨hafter, hanswer⟩ := hcall c (Solo.next_keeps hwait hcleanUp hstart) hc
    rw [Solo.run_call]
    exact ih _ hanswer hafter
  | report _ ih => exact ih hstart
  | pause _ ih => exact ih hstart

end WatchedStore.Memory

namespace WatchedStore.Cache

open Memory WatchedStore.Action

/-! ## Known members -/

/-- **A sound store in which the tracking sets of regions list known keys only.** -/
structure Known (region : String → Region) (known : String → String → Prop) (now : Instant) (s : Store) :
    Prop where
  sound : s.poisoned = false
  lists : ∀ n, Lists (known n) (s.state.live now (region n).trackingKey)

namespace Known

variable {region : String → Region} {known known' : String → String → Prop} {now t : Instant} {s : Store}

/-- At first nothing is listed, and so nothing has to be known. -/
theorem of_new (hsound : s.poisoned = false)
    (hnew : ∀ n, s.state.live now (region n).trackingKey = none) : Known region (fun _ _ => False) now s where
  sound := hsound
  lists n := by
    rintro x ⟨_, _, hx, -⟩
    rw [hnew n] at hx
    cases hx

theorem mono (h : Known region known now s) (hknown : ∀ n k, known n k → known' n k) :
    Known region known' now s where
  sound := h.sound
  lists n x hx :=
    let ⟨k, hk, heq⟩ := h.lists n x hx
    ⟨k, hknown n k hk, heq⟩

theorem later (h : Known region known now s) (hle : now ≤ t) : Known region known t s :=
  ⟨h.sound, fun n => (h.lists n).later hle⟩

theorem cleanUp (h : Known region known now s) : Known region known now (s.perform now .cleanUp) where
  sound := (poisoned_cleanUp s now).trans h.sound
  lists n := by
    rw [live_cleanUp]
    exact h.lists n

/-- A call that stores nothing adds no member, and breaks nothing. -/
theorem call {r : Region} {removes : String → Prop} {c : Call Transaction} (h : Known region known now s)
    (hc : r.Makes (fun _ => False) removes c) : Known region known now (s.call now c).2 where
  sound := by
    cases hc with
    | members => rw [Store.call, setMembers_of_sound h.sound, h.sound]
    | get key => rw [Store.call, get_of_sound h.sound, h.sound]
    | put key json hkey => exact hkey.elim
    | remove keys _ =>
      have hrep : ∀ c ∈ r.removals keys, c.Representable now := by
        intro c hc
        obtain ⟨_, -, rfl | rfl⟩ := Region.mem_removals hc <;> trivial
      rw [Store.call, request_batch_of_sound h.sound hrep, h.sound]
  lists n := hc.lists (fun _ _ hkey => hkey.elim) (h.lists n)

/-- A call adds what it stores to the members of its own region's set, and to no other set. -/
theorem add {a : String} {stores removes : String → Prop} {c : Call Transaction}
    (hnames : Function.Injective fun n => (region n).trackingKey) (h : Known region known now s)
    (hc : (region a).Makes stores removes c) (n : String) :
    Lists (fun k => known n k ∨ n = a ∧ stores k) ((s.call now c).2.state.live now (region n).trackingKey) := by
  refine hc.lists (fun hkey k hk => .inr ⟨hnames hkey, hk⟩) fun x hx => ?_
  obtain ⟨k, hk, heq⟩ := h.lists n x hx
  exact ⟨k, .inl hk, heq⟩

end Known

/-- Whether a key holds a set. -/
def HoldsSet (held : Option Entry) : Prop := ∃ set until_, held = some ⟨.members set, until_⟩

/-- **A call that stores nothing leaves keys alone** that it does not remove, also its own tracking key if
that holds no set. -/
theorem Region.Makes.spares {r : Region} {removes : String → Prop} {c : Call Transaction} {now : Instant}
    {s : Store} {k : String} (hc : r.Makes (fun _ => False) removes c) (hfree : ¬ removes k)
    (hset : k = r.trackingKey → ¬ HoldsSet (s.state.live now k)) :
    (s.call now c).2.state.live now k = s.state.live now k := by
  refine hc.keeps (I := fun state => state.live now k = s.state.live now k) (fun state key _ hstate => ?_)
    (fun commands hbatch command hcommand state hstate => ?_) rfl
  · rw [State.live_purge]
    exact hstate
  · subst hbatch
    cases hc with
    | put key json hkey => exact hkey.elim
    | remove keys hkeys =>
      obtain ⟨key, hkey, rfl | rfl⟩ := Region.mem_removals hcommand
      · have hne : k ≠ key := by
          rintro rfl
          exact hfree (hkeys k hkey)
        exact (state.live_apply_of_ne hne).trans hstate
      · by_cases hk : k = r.trackingKey
        · -- no member is taken out of what is no set
          have hkeep : ∀ full, (Rule.ofCommand now (.setRemove r.trackingKey (Bytes.ofText key))
              (state.live now k) full).2 = .keep := by
            intro full
            rw [hstate]
            rcases hheld : s.state.live now k with _ | ⟨_ | set, until_⟩
            · rfl
            · rfl
            · exact absurd ⟨set, until_, hheld⟩ (hset hk)
          subst hk
          have hlive : (state.apply (.setRemove r.trackingKey (Bytes.ofText key)) s.maxEntries now).2.live now =
              state.live now := by
            rw [State.apply_eq_follow]
            exact State.live_follow_keep _ s.maxEntries (hkeep _)
          exact (congrFun hlive _).trans hstate
        · exact (state.live_apply_of_ne hk).trans hstate

/-- The keys under which an operation stores an entry. -/
def Operation.Stores (op : Operation α) (r : Region) (k : String) : Prop :=
  ∃ key value, op = .put key value ∧ k = r.storageKey key

section Play

variable {codec : Codec α} {region : String → Region} {known : String → String → Prop} {solo : Solo}
  {a : String} {op : Operation α}

/-- **A put that succeeds makes its own key known**, and no other. -/
theorem Known.put (hnames : Function.Injective fun n => (region n).trackingKey)
    (h : Known region known solo.now solo.store) {key : String} {value : α}
    (hok : ((Operation.put key value).alone codec (region a) solo).1.isOk = true) :
    let after := ((Operation.put key value).alone codec (region a) solo).2
    Known region (fun n k => known n k ∨ n = a ∧ k = (region a).storageKey key) after.now after.store := by
  intro after
  have hnext : Known region known solo.next.now solo.next.store := Solo.next_keeps Known.later Known.cleanUp h
  cases hencode : codec.encode value with
  | error e =>
    rw [put_alone_of_error hencode] at hok
    cases hok
  | ok json =>
    obtain ⟨hleft, -, hsucceeds⟩ := put_alone key hencode (region a) solo
    obtain ⟨hsound, -⟩ := batch_of_succeeds hnext.sound (hsucceeds hok)
    have hmakes : (region a).Makes (· = (region a).storageKey key) (fun _ => False)
      (.request (.batch ((region a).putCommands key json))) := .put key json rfl
    rw [show after = _ from hleft]
    exact ⟨hsound, hnext.add hnames hmakes⟩

/-- **What stores nothing** makes no key known, and leaves all keys as they were but those that it removes
and, of its own tracking key, the members. -/
theorem Known.sweep (h : Known region known solo.now solo.store) (hstores : ∀ k, ¬ op.Stores (region a) k) :
    let after := (op.alone codec (region a) solo).2
    Known region known after.now after.store ∧
      ∀ k, ¬ known a k → (∀ key, op = .evict key → k ≠ (region a).storageKey key) →
        (k = (region a).trackingKey → ¬ HoldsSet (solo.store.state.live solo.now k)) →
        after.store.state.live after.now k =
          (solo.store.state.live solo.now k).filter (!·.isExpired after.now) := by
  let removes k := known a k ∨ ∃ key, op = .evict key ∧ k = (region a).storageKey key
  have hmakes : Relies ((region a).Makes (fun _ => False) removes) ((region a).Hears removes)
      (ExceptT.run (op.action codec (region a))) :=
    op.makes codec (region a) (fun key value hop => hstores _ ⟨key, value, hop, rfl⟩)
      fun key hop => .inr ⟨key, hop, rfl⟩
  have hrun := hmakes.alone (I := fun now s => Known region known now s ∧
      ∀ k, ¬ removes k → (k = (region a).trackingKey → ¬ HoldsSet (solo.store.state.live solo.now k)) →
        s.state.live now k = (solo.store.state.live solo.now k).filter (!·.isExpired now))
    (fun ⟨hknown, hlive⟩ hle => ⟨hknown.later hle, fun k hfree hset => ?_⟩)
    (fun ⟨hknown, hlive⟩ => ⟨hknown.cleanUp, fun k hfree hset => ?_⟩)
    (fun c ⟨hknown, hlive⟩ hc => ⟨⟨hknown.call hc, fun k hfree hset => ?_⟩, hc.hears fun x hx => ?_⟩)
    ⟨h, fun k _ _ => solo.store.state.live_later (Nat.le_refl _) k⟩
  · refine ⟨hrun.1, fun k hknown hevict hset => hrun.2 k ?_ hset⟩
    rintro (hk | ⟨key, hop, rfl⟩)
    · exact hknown hk
    · exact hevict key hop rfl
  · rw [State.live_later _ hle, hlive k hfree hset,
      ← TimedMap.filter_of_later fun _ => Entry.not_isExpired_of_later hle]
  · rw [live_cleanUp, hlive k hfree hset]
  · rw [hc.spares hfree fun hk => ?_, hlive k hfree hset]
    rintro ⟨set, until_, hheld⟩
    rw [hlive k hfree hset] at hheld
    exact hset hk ⟨set, until_, (Option.filter_eq_some_iff.mp hheld).1⟩
  · obtain ⟨k, hk, heq⟩ := hknown.lists a x hx
    exact ⟨k, .inl hk, heq⟩

/-- **An operation that succeeds** makes known what it stores. -/
theorem Known.step (hnames : Function.Injective fun n => (region n).trackingKey)
    (h : Known region known solo.now solo.store) (hok : (op.alone codec (region a) solo).1.isOk = true) :
    let after := (op.alone codec (region a) solo).2
    Known region (fun n k => known n k ∨ n = a ∧ op.Stores (region a) k) after.now after.store := by
  cases op with
  | put key value =>
    exact (h.put hnames hok).mono fun n k => Or.imp_right fun ⟨hn, hk⟩ => ⟨hn, key, value, rfl, hk⟩
  | get key => exact (h.sweep (by simp [Operation.Stores])).1.mono fun n k => .inl
  | evict key => exact (h.sweep (by simp [Operation.Stores])).1.mono fun n k => .inl
  | clear => exact (h.sweep (by simp [Operation.Stores])).1.mono fun n k => .inl

/-- Operations that are asked of regions by name. -/
def through (region : String → Region) (history : List (String × Operation α)) : List (Region × Operation α) :=
  history.map fun (n, op) => (region n, op)

/-- The keys under which entries have been stored in the region of a name. -/
def storedIn (region : String → Region) (history : List (String × Operation α)) (n k : String) : Prop :=
  ∃ op, (n, op) ∈ history ∧ op.Stores (region n) k

/-- **Operations that succeed** make known what is stored, by induction on their list. -/
theorem Known.play {history : List (String × Operation α)}
    (hnames : Function.Injective fun n => (region n).trackingKey)
    (h : Known region known solo.now solo.store)
    (hok : ∀ o ∈ (Cache.play codec (through region history) solo).1, o.result.isOk = true) :
    let after := (Cache.play codec (through region history) solo).2
    Known region (fun n k => known n k ∨ storedIn region history n k) after.now after.store := by
  induction history generalizing known solo with
  | nil => exact h.mono fun n k => .inl
  | cons first rest ih =>
    obtain ⟨a, op⟩ := first
    rw [through, List.map_cons, Cache.play] at hok ⊢
    obtain ⟨hok₁, hokRest⟩ := List.forall_mem_cons.mp hok
    refine (ih (h.step hnames hok₁) hokRest).mono fun n k => ?_
    rintro ((hk | ⟨rfl, hk⟩) | ⟨op', hmem, hk⟩)
    · exact .inl hk
    · exact .inr ⟨op, List.mem_cons_self, hk⟩
    · exact .inr ⟨op', List.mem_cons_of_mem _ hmem, hk⟩

end Play

/-- **A read by a client alone** answers the bytes that were stored, as long as their time is not over. -/
theorem get_alone_of_bytes {codec : Codec α} {r : Region} {solo : Solo} {key : String} {json : Bytes}
    {until_ : Option Instant} (hsound : solo.store.poisoned = false)
    (hheld : solo.store.state.live solo.now (r.storageKey key) =
      (some ⟨.bytes json, until_⟩ : Option Entry).filter (!·.isExpired solo.now)) :
    let read := (Operation.get key).alone codec r solo
    read.1 = if (⟨.bytes json, until_⟩ : Entry).isExpired read.2.now then .ok none
      else codec.decode (some json) := by
  obtain ⟨last, halone, hnow, -, -⟩ := get_alone hsound codec r key
  have hfound : solo.next.store.state.live solo.next.now (r.storageKey key) =
      (some ⟨.bytes json, until_⟩ : Option Entry).filter (!·.isExpired last.now) := by
    rw [hnow, solo.live_next, hheld, ← TimedMap.filter_of_later fun _ =>
      Entry.not_isExpired_of_later solo.next_le]
  rw [halone, hfound, Option.filter_some]
  dsimp only
  cases (⟨.bytes json, until_⟩ : Entry).isExpired last.now <;> rfl

/-! ## Regions of a manager -/

section Manager

variable {settings : CacheSettings} {region : String → Region}

/-- The regions of a manager whose prefixes are names with a delimiter. -/
theorem region_of_newRegion (hprefixed : settings.usePrefix = true)
    (hregion : ∀ n, (Manager.ofSettings settings).newRegion n = .ok (region n)) (n : String) :
    (region n).name = n ∧ (region n).keyPrefix = some (n ++ settings.delimiter) := by
  have h := hregion n
  have hused : (Manager.ofSettings settings).settings.usePrefix = true := hprefixed
  unfold Manager.newRegion at h
  rw [if_pos hused] at h
  rw [← Except.ok.inj h]
  exact ⟨rfl, rfl⟩

theorem Region.name_eq_of_trackingKey {r r' : Region} (h : r.trackingKey = r'.trackingKey) :
    r.name = r'.name := by
  have hlist := congrArg String.toList h
  simp only [trackingKey, String.toList_append, List.append_cancel_right_eq] at hlist
  exact String.toList_inj.mp hlist

theorem Region.prefix_storageKey {r : Region} {p : String} (h : r.keyPrefix = some p) (key : String) :
    p.toList <+: (r.storageKey key).toList := by
  rw [storageKey, h, Option.getD_some, String.toList_append]
  exact List.prefix_append _ _

/-- **Two regions share a storage key** only if one of their prefixes begins with the other. -/
theorem prefixes_of_storageKey_eq {r r' : Region} {p p' key key' : String} (hp : r.keyPrefix = some p)
    (hp' : r'.keyPrefix = some p') (h : r.storageKey key = r'.storageKey key') :
    p.toList <+: p'.toList ∨ p'.toList <+: p.toList := by
  have hshort := Region.prefix_storageKey hp' key'
  rw [← h] at hshort
  exact List.prefix_or_prefix_of_prefix (Region.prefix_storageKey hp key) hshort

end Manager

/-- **An eviction and a clearing leave the neighbours alone**, but for keys that are shared. Let one client
use any number of regions of one manager, whose prefixes are their names with a delimiter, over a store
that holds none of their tracking keys at first; let no operation fail, and let time pass and clean-ups
happen in between. Then an eviction or a clearing in a region `a` leaves what any other region `b` holds:
what `b` has stored under a key is read right afterwards as long as its time is not over, and its tracking
set stays what it was. The keys that this leaves out are storage keys of entries that were put in `a`, or
are evicted there now. For such a key to be a storage key of `b`, too, the prefix of one of the two has to
begin with that of the other, and for it to be the tracking key of `b`, that has to begin with the prefix of
`a`. -/
theorem neighbours_kept {codec : Codec α} {settings : CacheSettings} {region : String → Region}
    {history : List (String × Operation α)} {op : Operation α} {a b : String} (start : Solo)
    (hprefixed : settings.usePrefix = true)
    (hregion : ∀ n, (Manager.ofSettings settings).newRegion n = .ok (region n)) (hne : a ≠ b)
    (hsound : start.store.poisoned = false)
    (hnew : ∀ n, start.store.state.live start.now (region n).trackingKey = none)
    (hok : ∀ o ∈ (play codec (through region history) start).1, o.result.isOk = true)
    (hop : op = .clear ∨ ∃ key, op = .evict key) :
    let before := (play codec (through region history) start).2
    let after := (op.alone codec (region a) before).2
    let removed := fun k => storedIn region history a k ∨ ∃ key, op = .evict key ∧ k = (region a).storageKey key
    (∀ key json until_, ¬ removed ((region b).storageKey key) →
      before.store.state.live before.now ((region b).storageKey key) = some ⟨.bytes json, until_⟩ →
      let read := (Operation.get key).alone codec (region b) after
      read.1 = if (⟨.bytes json, until_⟩ : Entry).isExpired read.2.now then .ok none
        else codec.decode (some json)) ∧
    (¬ removed (region b).trackingKey →
      after.store.state.live after.now (region b).trackingKey =
        (before.store.state.live before.now (region b).trackingKey).filter (!·.isExpired after.now)) ∧
    (∀ k, removed k → (region b).IsStorageKey k →
      (a ++ settings.delimiter).toList <+: (b ++ settings.delimiter).toList ∨
        (b ++ settings.delimiter).toList <+: (a ++ settings.delimiter).toList) ∧
    (removed (region b).trackingKey → (a ++ settings.delimiter).toList <+: (b ++ "~keys").toList) := by
  intro before after removed
  have hname := fun n => (region_of_newRegion hprefixed hregion n).1
  have hkeys := fun n => (region_of_newRegion hprefixed hregion n).2
  have hnames : Function.Injective fun n => (region n).trackingKey := fun n n' h => by
    rw [← hname n, Region.name_eq_of_trackingKey h, hname n']
  have hknown : Known region (storedIn region history) before.now before.store :=
    ((Known.of_new hsound hnew).play hnames hok).mono fun n k hk => hk.resolve_left id
  have hstores : ∀ k, ¬ op.Stores (region a) k := by
    rcases hop with rfl | ⟨key, rfl⟩ <;> simp [Operation.Stores]
  obtain ⟨hafter, hlive⟩ : Known region (storedIn region history) after.now after.store ∧ _ :=
    hknown.sweep hstores
  have hkept : ∀ k, ¬ removed k →
      (k = (region a).trackingKey → ¬ HoldsSet (before.store.state.live before.now k)) →
      after.store.state.live after.now k =
        (before.store.state.live before.now k).filter (!·.isExpired after.now) :=
    fun k hk => hlive k (fun hstored => hk (.inl hstored)) fun key hop hkey => hk (.inr ⟨key, hop, hkey⟩)
  have hremoved : ∀ k, removed k → ∃ key, k = (region a).storageKey key := by
    rintro k (⟨op', -, key, value, -, rfl⟩ | ⟨key, -, rfl⟩)
    · exact ⟨key, rfl⟩
    · exact ⟨key, rfl⟩
  refine ⟨fun key json until_ hfree hheld => ?_, fun hfree => ?_, ?_, fun hk => ?_⟩
  · refine get_alone_of_bytes hafter.sound ((hkept _ hfree fun _ => ?_).trans (by rw [hheld]))
    rintro ⟨_, _, hset⟩
    rw [hheld] at hset
    cases hset
  · exact hkept _ hfree fun hsame => absurd (hnames hsame).symm hne
  · rintro k hk ⟨key', hkey'⟩
    obtain ⟨key, hkey⟩ := hremoved k hk
    exact prefixes_of_storageKey_eq (hkeys a) (hkeys b) (hkey.symm.trans hkey')
  · obtain ⟨key, hkey⟩ := hremoved _ hk
    have hbegins := Region.prefix_storageKey (hkeys a) key
    rw [← hkey, Region.trackingKey, hname b] at hbegins
    exact hbegins

/-- Of two regions with entries under the same key, one is cleared, and the other one's entry is read. -/
theorem neighbours_kept_same_key :
    let region (n : String) : Region := ⟨n, some (n ++ ":"), none⟩
    let before := (play .text (through region [("b", .put "x" "v"), ("a", .put "x" "w")])
      ⟨{ maxEntries := 10 }, 0, []⟩).2
    let after := ((Operation.clear : Operation String).alone .text (region "a") before).2
    ((Operation.get "x").alone .text (region "b") after).1 = .ok (some "v") := by
  intro region
  have hregion : ∀ n, (Manager.ofSettings { usePrefix := true }).newRegion n = .ok (region n) := by
    intro n
    simp [Manager.newRegion, Manager.ofSettings, Manager.expirationFor, PrefixStrategy.delimited, region]
    exact ⟨rfl, rfl⟩
  have hok : (play .text (through region [("b", .put "x" "v"), ("a", .put "x" "w")])
      ⟨{ maxEntries := 10 }, 0, []⟩).1.all (fun o => o.result.isOk) = true := by decide +kernel
  have hapart : ¬ (("a" ++ ":").toList <+: ("b" ++ ":").toList ∨ ("b" ++ ":").toList <+: ("a" ++ ":").toList) := by
    decide
  obtain ⟨hread, -, hshared, -⟩ := neighbours_kept ⟨{ maxEntries := 10 }, 0, []⟩ rfl hregion
    (show "a" ≠ "b" by decide) rfl (fun _ => rfl) (List.all_eq_true.mp hok) (.inl (rfl : Operation.clear = _))
  have hnow : (play .text (through region [("b", .put "x" "v"), ("a", .put "x" "w")])
      ⟨{ maxEntries := 10 }, 0, []⟩).2.now = 0 := by decide +kernel
  have hheld : ((play .text (through region [("b", .put "x" "v"), ("a", .put "x" "w")])
      ⟨{ maxEntries := 10 }, 0, []⟩).2.store.state.live 0 ((region "b").storageKey "x")).map (fun e =>
        (e.deadline, (Rule.get (some e) false).1.toOption)) =
          some (none, some (some (Json.Document.string "v").encode)) := by decide +kernel
  generalize (play .text (through region [("b", .put "x" "v"), ("a", .put "x" "w")])
    ⟨{ maxEntries := 10 }, 0, []⟩).2 = before at hread hshared hnow hheld ⊢
  rw [← hnow] at hheld
  obtain ⟨⟨value, until_⟩, he, hvalue⟩ := Option.map_eq_some_iff.mp hheld
  cases value with
  | members set => cases hvalue
  | bytes json =>
    cases hvalue
    refine (hread "x" _ _ (fun hremoved => hapart (hshared _ hremoved ⟨"x", rfl⟩)) he).trans
      ((if_neg Bool.false_ne_true).trans ?_)
    decide +kernel

/-- **A region's clearing takes a neighbour's entry, and its eviction a neighbour's tracking set.** The
prefix of the region `a:b` begins with that of the region `a`. What is put for `b:x` in `a`, and then for
`x` in `a:b`, has one storage key, so clearing `a` takes the latter; and the tracking key of `a:b` is the
storage key for `b~keys` in `a`. -/
theorem neighbour_lost :
    let m := Manager.ofSettings { usePrefix := true }
    let a : Region := ⟨"a", some "a:", none⟩
    let b : Region := ⟨"a:b", some "a:b:", none⟩
    let (history, before) := play .text [(a, .put "b:x" "w"), (b, .put "x" "v")] ⟨{ maxEntries := 10 }, 0, []⟩
    let cleared := ((Operation.clear : Operation String).alone .text a before).2
    let evicted := ((Operation.evict "b~keys" : Operation String).alone .text a before).2
    m.newRegion "a" = .ok a ∧ m.newRegion "a:b" = .ok b ∧ history.all (fun o => o.result.isOk) = true ∧
      ((Operation.get "x").alone .text b before).1 = .ok (some "v") ∧
      ((Operation.get "x").alone .text b cleared).1 = .ok none ∧
      (before.store.state.live before.now b.trackingKey).isSome = true ∧
      (evicted.store.state.live evicted.now b.trackingKey).isNone = true := by
  refine ⟨rfl, rfl, ?_⟩
  decide +kernel

end WatchedStore.Cache
