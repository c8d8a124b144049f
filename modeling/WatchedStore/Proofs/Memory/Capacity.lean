import WatchedStore.Proofs.Memory.Footprint
import WatchedStore.Proofs.Memory.Issue

/-!
# What counts against the capacity

A key is refused if the store holds as many keys as it may. What is counted are stored keys, and a key whose
time is over stays stored until somebody touches it or a clean-up comes by. An operation purges its own key
before it counts, and no other.

**The law** (`refused_iff_no_room`): an operation that may make its key is refused exactly if the key holds
nothing and the others that are stored use up the capacity, the dead among them included. That goes for
direct operations and for commands of a batch or a commit, each where the commands before it have left off.
Living keys never take up less room than that (`liveBeside_le`), and no more either where nothing is overdue,
as behind a clean-up (`liveBeside_eq`).

What a rule answers a key without room is all there is to know of an operation (`Rule.WantsRoom`). The rest
is counting: a key that holds nothing is not stored once it is purged, so what is stored then are the others
(`isFull_purge_iff`).
-/

namespace WatchedStore

/-- **The key that an operation makes if it is absent.** A subtraction whose amount has no negative is
refused for that, and makes nothing. -/
def Request.makes? : Request → Option String
  | .set key .. | .getSet key _ | .increment key _ | .setAdd key _ => some key
  | .decrement key amount => (Numeral.neg? amount).map fun _ => key
  | .get _ | .expire .. | .contains _ | .delete _ | .setRemove .. | .setMembers _ | .batch _ => none

namespace Memory

namespace State

/-- The keys that are stored beside a key, whether their time is over or not. -/
def beside (s : State) (key : String) : List String := s.entries.keys.filter (· != key)

/-- How many other keys are stored. -/
def storedBeside (s : State) (key : String) : Nat := (s.beside key).length

/-- How many other keys hold something at a reading of the clock. -/
def liveBeside (s : State) (key : String) (now : Instant) : Nat :=
  ((s.beside key).filter fun k => (s.live now k).isSome).length

/-- **There is no room for a key**: it holds nothing, and the others that are stored use up the capacity. -/
def Crowded (s : State) (key : String) (max : Nat) (now : Instant) : Prop :=
  s.live now key = none ∧ max ≤ s.storedBeside key

variable {s : State} {key : String} {max : Nat} {now : Instant}

/-! ## Counting -/

theorem size_eq_storedBeside (h : s.entries[key]? = none) : s.entries.size = s.storedBeside key := by
  have hother : ∀ k ∈ s.entries.keys, (k != key) = true := by
    intro k hk
    refine bne_iff_ne.mpr fun heq => ?_
    subst heq
    have hin := Std.ExtTreeMap.mem_keys.mp hk
    rw [Std.ExtTreeMap.mem_iff_isSome_getElem?, h] at hin
    cases hin
  rw [storedBeside, beside, List.filter_eq_self.mpr hother, Std.ExtTreeMap.length_keys]

theorem size_erase (h : key ∈ s.entries) : (s.entries.erase key).size = s.storedBeside key := by
  have hnodup : s.entries.keys.Nodup := Std.ExtTreeMap.nodup_keys
  have hkey : key ∈ s.entries.keys := Std.ExtTreeMap.mem_keys.mpr h
  rw [storedBeside, beside, ← hnodup.erase_eq_filter, List.length_erase_of_mem hkey,
    Std.ExtTreeMap.length_keys, Std.ExtTreeMap.size_erase, if_pos (Std.ExtTreeMap.mem_iff_contains.mp h)]

/-- **What is stored beside a key that holds nothing** is what is stored once the key is purged. -/
theorem size_purge (h : s.live now key = none) :
    (s.purge key now).entries.size = s.storedBeside key := by
  by_cases hover : s.Overdue key now
  · rw [purge_of_overdue hover]
    obtain ⟨e, he, -⟩ := hover
    refine size_erase ?_
    rw [Std.ExtTreeMap.mem_iff_isSome_getElem?, he]
    rfl
  · rw [purge_of_not_overdue hover]
    rw [live_of_not_overdue hover] at h
    exact size_eq_storedBeside h

/-- **A purged key finds the store full** if it holds nothing and the others use up the capacity. -/
theorem isFull_purge_iff : (s.purge key now).isFull key max = true ↔ s.Crowded key max now := by
  cases hlive : s.live now key with
  | some e => simp [isFull_of_live max hlive, Crowded, hlive]
  | none =>
    have hout : (s.purge key now).entries.contains key = false := by
      rw [Std.ExtTreeMap.contains_eq_isSome_getElem?, entries_purge_self, hlive]
      rfl
    simp [isFull, hout, size_purge hlive, Crowded, hlive]

theorem liveBeside_le (s : State) (key : String) (now : Instant) :
    s.liveBeside key now ≤ s.storedBeside key :=
  List.length_filter_le ..

/-- Where no other key is overdue, the keys that are stored are the living ones. -/
theorem liveBeside_eq (h : ∀ k, k ≠ key → ¬ s.Overdue k now) :
    s.liveBeside key now = s.storedBeside key := by
  refine congrArg List.length (List.filter_eq_self.mpr fun k hk => ?_)
  obtain ⟨hstored, hne⟩ := List.mem_filter.mp hk
  rw [live_of_not_overdue (h k (bne_iff_ne.mp hne)), ← Std.ExtTreeMap.mem_iff_isSome_getElem?]
  exact Std.ExtTreeMap.mem_keys.mp hstored

theorem not_overdue_purgeAll (s : State) (now : Instant) (key : String) :
    ¬ (s.purgeAll now).Overdue key now := by
  rintro ⟨e, he, hover⟩
  rw [entries_purgeAll] at he
  rw [not_expired_of_live he] at hover
  cases hover

end State

/-! ## Rules -/

namespace Rule

/-- **A rule that refuses a key without room**, and fails so in no other case. A key that holds something has
room. -/
def WantsRoom (rule : Rule α) : Prop :=
  ∀ held full, (held.isSome = true → full = false) →
    ((rule held full).1 = .error .capacityExceeded ↔ held = none ∧ full = true)

theorem wantsRoom_set (value : Bytes) (ttl : Option Duration) (now : Instant) :
    (set value ttl now).WantsRoom := by
  intro held full hroom
  have hdeadline : State.deadline ttl now ≠ .error .capacityExceeded := fun h => by
    cases deadline_error h
  unfold set
  cases full with
  | true =>
    cases held with
    | none => simp
    | some e => cases hroom rfl
  | false =>
    cases h : State.deadline ttl now with
    | ok until_ => simp
    | error e =>
      rw [h] at hdeadline
      simpa using hdeadline

theorem wantsRoom_getSet (value : Bytes) : (getSet value).WantsRoom := by
  intro held full hroom
  rcases held with _ | ⟨_ | set, until_⟩
  · cases full <;> simp [getSet, get]
  · rw [hroom rfl]
    simp [getSet, get]
  · simp [getSet, get, Error.wrongType, Error.capacityExceeded]

theorem store_ne_refused (sum? : Option Int64) (until_ : Option Instant) :
    (store sum? until_).1 ≠ .error .capacityExceeded := by
  intro h
  have hoverflow := store_error h
  simp [Error.capacityExceeded, Error.overflow] at hoverflow

theorem wantsRoom_increment (key : String) (amount : Int64) : (increment key amount).WantsRoom := by
  intro held full hroom
  rcases held with _ | ⟨b | set, until_⟩
  · cases full with
    | true => simp [increment]
    | false => simpa [increment] using store_ne_refused _ _
  · cases hdecode : Counter.decode key b with
    | ok current => simpa [increment, hdecode] using store_ne_refused _ _
    | error e => simp [increment, hdecode, Error.notAnInteger, Error.capacityExceeded]
  · simp [increment, Error.wrongType, Error.capacityExceeded]

theorem wantsRoom_setAdd (member : Bytes) : (setAdd member).WantsRoom := by
  intro held full hroom
  rcases held with _ | ⟨b | set, until_⟩
  · cases full <;> simp [setAdd]
  · simp [setAdd, Error.wrongType, Error.capacityExceeded]
  · cases hmember : set.contains member <;> simp [setAdd, hmember]

/-- **The operations that may make their key want room for it.** -/
theorem Decides.wantsRoom {now : Instant} {r : Request} {key k : String} {rule : Rule r.Answer}
    (h : Decides now r key rule) (hmakes : r.makes? = some k) : key = k ∧ rule.WantsRoom := by
  cases h with
  | set _ value ttl => exact ⟨Option.some.inj hmakes, wantsRoom_set value ttl now⟩
  | getSet _ value => exact ⟨Option.some.inj hmakes, wantsRoom_getSet value⟩
  | increment _ amount => exact ⟨Option.some.inj hmakes, wantsRoom_increment key amount⟩
  | decrement _ hneg =>
    rw [Request.makes?, hneg] at hmakes
    exact ⟨Option.some.inj hmakes, wantsRoom_increment key _⟩
  | setAdd _ member => exact ⟨Option.some.inj hmakes, wantsRoom_setAdd member⟩
  | _ => cases hmakes

/-- An operation is refused if its key is crowded out. -/
theorem WantsRoom.refused_iff {rule : Rule α} (h : rule.WantsRoom) (s : State) (key : String) (max : Nat)
    (now : Instant) :
    (rule (s.live now key) ((s.purge key now).isFull key max)).1 = .error .capacityExceeded ↔
      s.Crowded key max now := by
  have hroom : (s.live now key).isSome = true → (s.purge key now).isFull key max = false := by
    intro hlive
    obtain ⟨e, he⟩ := Option.isSome_iff_exists.mp hlive
    exact State.isFull_of_live max he
  rw [h _ _ hroom, State.isFull_purge_iff]
  exact and_iff_right_of_imp And.left

end Rule

/-! ## Direct operations -/

variable {s : Store} {now : Instant} {key : String}

theorem Rule.ruled_of_makes (now : Instant) {r : Request} (hmakes : r.makes? = some key) :
    ∃ rule, Decides now r key rule := by
  cases r with
  | set k value ttl =>
    cases hmakes
    exact ⟨_, .set key value ttl⟩
  | getSet k value =>
    cases hmakes
    exact ⟨_, .getSet key value⟩
  | increment k amount =>
    cases hmakes
    exact ⟨_, .increment key amount⟩
  | decrement k amount =>
    obtain ⟨negated, hneg, rfl⟩ := Option.map_eq_some_iff.mp hmakes
    exact ⟨_, .decrement k hneg⟩
  | setAdd k member =>
    cases hmakes
    exact ⟨_, .setAdd key member⟩
  | _ => cases hmakes

theorem request_refused_iff (s : Store) (now : Instant) {r : Request} (hmakes : r.makes? = some key) :
    (s.request now r).1 = .error .capacityExceeded ↔
      s.poisoned = false ∧ s.state.Crowded key s.maxEntries now := by
  obtain ⟨rule, hrule⟩ := Rule.ruled_of_makes now hmakes
  obtain ⟨-, hwants⟩ := hrule.wantsRoom hmakes
  cases hp : s.poisoned with
  | true =>
    rw [request_of_poisoned hp hrule]
    simp [Store.lockPoisoned, Error.capacityExceeded]
  | false =>
    rw [request_fst_of_sound hp hrule, hwants.refused_iff]
    simp

/-- What a key holds at a reading of the clock is there for a client that asks. -/
theorem request_contains (hsound : s.poisoned = false) (now : Instant) (key : String) :
    (s.request now (.contains key)).1 = .ok (s.state.live now key).isSome :=
  request_fst_of_sound hsound (.contains key)

/-! ## Batches -/

namespace State

/-- The contents that a command of a batch meets: what the commands before it have left. -/
def meets (s : State) (commands : List Command) (i max : Nat) (now : Instant) : State :=
  (s.applyAll (commands.take i) max now).2

/-- **The replies of a batch refuse keys without room**, and no others, among those that its commands may
make. -/
def RefusesCrowded (s : State) (commands : List Command) (max : Nat) (now : Instant)
    (replies : List Reply) : Prop :=
  replies.length = commands.length ∧
    ∀ (i : Nat) (c : Command) (key : String), commands[i]? = some c → c.request.makes? = some key →
      (replies[i]? = some (.error "Maximum entries limit exceeded") ↔
        (s.meets commands i max now).Crowded key max now)

variable {s : State} {max : Nat} {c : Command} {commands : List Command} {replies : List Reply}

theorem apply_refused_iff (s : State) (max : Nat) (now : Instant) (hmakes : c.request.makes? = some key) :
    (s.apply c max now).1 = .error .capacityExceeded ↔ s.Crowded key max now := by
  obtain ⟨rule, hrule, htold⟩ := Rule.decides_command now c
  obtain ⟨rfl, hwants⟩ := hrule.wantsRoom hmakes
  rw [apply_eq_follow, follow_fst, htold, ← hwants.refused_iff, Rule.map]
  cases (rule (s.live now c.key) ((s.purge c.key now).isFull c.key max)).1 <;> simp [Except.map]

/-- A reply is the text of a refusal only if its command was refused. -/
theorem ofAnswer_refused_iff (hcalm : ∀ reason, (s.apply c max now).1 ≠ .error (.crash reason)) :
    Reply.ofAnswer (s.apply c max now).1 = .error "Maximum entries limit exceeded" ↔
      (s.apply c max now).1 = .error .capacityExceeded := by
  obtain ⟨rule, hrule, htold⟩ := Rule.decides_command now c
  rw [apply_eq_follow, follow_fst, htold, Rule.map] at hcalm ⊢
  cases hanswer : (rule (s.live now c.key) ((s.purge c.key now).isFull c.key max)).1 with
  | ok a =>
    -- what succeeded is told by no error
    have htold := asError?_told a
    refine ⟨fun h => ?_, fun h => (by cases h)⟩
    rw [show c.told a = .error "Maximum entries limit exceeded" from h] at htold
    cases htold
  | error e =>
    rw [hanswer] at hcalm
    rcases hrule.rejects _ _ e hanswer with ⟨reason, rfl⟩ | rfl
    · simp [Except.map, Reply.ofAnswer, Reply.ofError, Error.capacityExceeded]
    · exact absurd rfl (hcalm _)

/-- **Each reply of a batch is the answer of its command**, where the commands before it have left off. -/
theorem reply_of_applyAll (h : (s.applyAll commands max now).1 = .ok replies) :
    replies.length = commands.length ∧ ∀ (i : Nat) (c : Command), commands[i]? = some c →
      replies[i]? = some (.ofAnswer ((s.meets commands i max now).apply c max now).1) ∧
        ∀ reason, ((s.meets commands i max now).apply c max now).1 ≠ .error (.crash reason) := by
  induction commands generalizing s replies with
  | nil =>
    cases h
    exact ⟨rfl, fun i c hc => by cases hc⟩
  | cons first rest ih =>
    have hcalm : ∀ reason, (s.apply first max now).1 ≠ .error (.crash reason) := by
      intro reason hcrash
      rw [applyAll_cons_crash s max now first rest hcrash] at h
      cases h
    rw [applyAll_cons s max now first rest hcalm, applyAll.cons_fst] at h
    cases htail : ((s.apply first max now).2.applyAll rest max now).1 with
    | error e =>
      rw [htail] at h
      cases h
    | ok tail =>
      rw [htail] at h
      cases h
      obtain ⟨hlength, hreplies⟩ := ih htail
      refine ⟨congrArg (· + 1) hlength, fun i c hc => ?_⟩
      cases i with
      | zero =>
        cases hc
        exact ⟨rfl, hcalm⟩
      | succ i =>
        have hmeets : s.meets (first :: rest) (i + 1) max now =
            (s.apply first max now).2.meets rest i max now := by
          rw [meets, List.take_succ_cons, applyAll_cons s max now first _ hcalm, applyAll.cons_snd, meets]
        rw [hmeets]
        exact hreplies i c hc

theorem refusesCrowded_of_applyAll (h : (s.applyAll commands max now).1 = .ok replies) :
    s.RefusesCrowded commands max now replies := by
  obtain ⟨hlength, hreplies⟩ := reply_of_applyAll h
  refine ⟨hlength, fun i c key hc hmakes => ?_⟩
  obtain ⟨hreply, hcalm⟩ := hreplies i c hc
  rw [hreply, Option.some.injEq, ofAnswer_refused_iff hcalm, apply_refused_iff _ max now hmakes]

end State

theorem batch_refusesCrowded {commands : List Command} {replies : List Reply}
    (h : (s.request now (.batch commands)).1 = .ok replies) :
    s.state.RefusesCrowded commands s.maxEntries now replies := by
  change (s.locked (·.applyAll commands s.maxEntries now)).1 = _ at h
  cases hp : s.poisoned with
  | true =>
    rw [Store.locked_of_poisoned hp] at h
    cases h
  | false =>
    rw [Store.locked_of_sound hp] at h
    exact State.refusesCrowded_of_applyAll h

/-- A commit that is carried out is a batch, behind the check of what it watches. -/
theorem exec_refusesCrowded {tx : Transaction} {commands : List Command} {replies : List Reply}
    (h : (s.call now (.exec tx commands)).1 = .ok (some replies)) :
    (s.state.unchanged tx.watched now).2.RefusesCrowded commands s.maxEntries now replies := by
  cases hp : s.poisoned with
  | true =>
    rw [call_exec_of_poisoned hp] at h
    cases h
  | false =>
    simp only [call_exec_of_sound hp, State.exec_eq] at h
    split at h
    · cases hall : ((s.state.unchanged tx.watched now).2.applyAll commands s.maxEntries now).1 with
      | error e =>
        rw [hall] at h
        cases h
      | ok all =>
        rw [hall] at h
        cases h
        exact State.refusesCrowded_of_applyAll hall
    · cases h

/-! ## The capacity -/

/-- **An operation is refused exactly if there is no room for its key.** In any store and at any reading of
the clock, an operation that may make its key fails with "Maximum entries limit exceeded" exactly if the
lock is sound, the key holds nothing, and at least as many other keys are stored as the store may hold,
whether their time is over or not. A batch, and a commit that is carried out, give one reply for each
command, and such a command is told that it is refused exactly if there is no room where the commands before
it have left off.

To hold something is to be there for a client that asks. Of the other keys that are stored, those that hold
something are some, and all if none of them is overdue, as behind a clean-up. -/
theorem refused_iff_no_room (s : Store) (now : Instant) :
    (∀ (r : Request) (key : String), r.makes? = some key →
      ((s.request now r).1 = .error (.command "Maximum entries limit exceeded") ↔
        s.poisoned = false ∧ s.state.Crowded key s.maxEntries now)) ∧
    (∀ (commands : List Command) (replies : List Reply),
      (s.request now (.batch commands)).1 = .ok replies →
        s.state.RefusesCrowded commands s.maxEntries now replies) ∧
    (∀ (tx : Transaction) (commands : List Command) (replies : List Reply),
      (s.call now (.exec tx commands)).1 = .ok (some replies) →
        (s.state.unchanged tx.watched now).2.RefusesCrowded commands s.maxEntries now replies) ∧
    (s.poisoned = false → ∀ key : String,
      (s.request now (.contains key)).1 = .ok (s.state.live now key).isSome) ∧
    (∀ key : String,
      s.state.liveBeside key now ≤ s.state.storedBeside key ∧
      ((∀ k, k ≠ key → ¬ s.state.Overdue k now) →
        s.state.liveBeside key now = s.state.storedBeside key) ∧
      (s.cleanUp now).2.state.liveBeside key now = (s.cleanUp now).2.state.storedBeside key) := by
  refine ⟨fun r key hmakes => request_refused_iff s now hmakes, fun commands replies =>
    batch_refusesCrowded, fun tx commands replies => exec_refusesCrowded, fun hsound =>
    request_contains hsound now, fun key => ⟨s.state.liveBeside_le key now, State.liveBeside_eq, ?_⟩⟩
  exact State.liveBeside_eq fun k _ => s.state.not_overdue_purgeAll now k

/-- A key is refused although no other one is there any more: the time of the only other one is over, and
nobody has touched it. -/
theorem refused_by_overdue_key :
    ¬ ∀ (max : Nat) (now : Instant) (s : Store) (key : String) (value : Bytes),
      Reaches 0 { maxEntries := max } now s →
        ((s.request now (.set key value none)).1 = .error (.command "Maximum entries limit exceeded") ↔
          s.state.live now key = none ∧ max ≤ s.state.liveBeside key now) := by
  intro h
  have hreach : Reaches 0 { maxEntries := 1 } 1000000
      (({ maxEntries := 1 } : Store).perform 0
        (.call (.request (.set "a" [0x78] (some (.ofMillis 1)))))) :=
    (Reaches.refl.deed _).wait (by decide)
  have hroom := ((h 1 1000000 _ "b" [0x79] hreach).mp rfl).2
  exact absurd hroom (by decide)

end Memory

end WatchedStore
