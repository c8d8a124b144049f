import WatchedStore.Proofs.Memory.Failure
import WatchedStore.Proofs.Memory.Live
import WatchedStore.Proofs.Memory.TimedMap

/-!
# A store answers as a map with deadlines

Entries whose time is over lie around in a store until somebody meets them, and a clean-up may have removed
them or not. No client can tell. What keys hold at a reading (`State.live`) is what they hold in the map
(`TimedMap.present`), and each operation answers by that and keeps it so (`Simulates`).

**The laws**: one lemma for each operation says that its rule answers as the map does and leaves what the
map leaves (`Operation.agrees`); from it follows a step (`Stands.operate`), and from steps a run
(`answers_eq_timedMap`).

The map has no capacity and its clock shows every reading, so a run must leave room for one key more and set
no deadline that the store's clock cannot show.
-/

namespace WatchedStore.Memory

/-! ## What an operation leaves -/

/-- What is stored under a key after an update. -/
def Update.after (held : Option Entry) : Update → Option Entry
  | .keep => held
  | .put e => some e
  | .drop | .erase => none

theorem isFull_purge_of_room {state : State} {max : Nat} (h : state.entries.size < max) (key : String)
    (now : Instant) : (state.purge key now).isFull key max = false := by
  have hle : (state.purge key now).entries.size ≤ state.entries.size := by
    by_cases hover : state.Overdue key now
    · rw [State.purge_of_overdue hover]
      exact Std.ExtTreeMap.size_erase_le
    · rw [State.purge_of_not_overdue hover]
  have hlt : ¬ max ≤ (state.purge key now).entries.size := by omega
  simp [State.isFull, hlt]

theorem live_update (state : State) (key : String) (u : Update) (now : Instant) :
    (state.update key u).live now = fun k =>
      if k = key then (u.after state.entries[key]?).filter (!·.isExpired now) else state.live now k := by
  funext k
  by_cases hk : k = key
  · rw [if_pos hk]
    subst hk
    cases u with
    | keep => rfl
    | put e =>
      rw [State.update, State.live, State.entries_put, if_pos rfl]
      rfl
    | drop =>
      rw [State.update, State.live, State.entries_remove, if_pos rfl]
      rfl
    | erase =>
      rw [State.update, State.live, State.entries_erase, if_pos rfl]
      rfl
  · rw [if_neg hk]
    cases u with
    | keep => rfl
    | put e => rw [State.update, State.live, State.entries_put, if_neg (Ne.symm hk), State.live]
    | drop => rw [State.update, State.live, State.entries_remove, if_neg (Ne.symm hk), State.live]
    | erase => rw [State.update, State.live, State.entries_erase, if_neg (Ne.symm hk), State.live]

/-- **An operation replaces what its key holds** by what its rule says, and nothing else. -/
theorem live_follow (rule : Rule α) {key : String} {max : Nat} {now : Instant} {state : State}
    (hroom : (state.purge key now).isFull key max = false) :
    (state.follow rule key max now).2.live now = fun k =>
      if k = key then
        ((rule (state.live now key) false).2.after (state.live now key)).filter (!·.isExpired now)
      else state.live now k := by
  unfold State.follow
  dsimp only
  rw [hroom, live_update, State.entries_purge_self, state.live_purge key now]

namespace TimedMap

/-! ## What stands for what -/

/-- **An entry that stands for a cell.** -/
inductive Represents : Entry → Cell → Prop
  | bytes (b : Bytes) (deadline : Option Instant) :
    Represents ⟨.bytes b, deadline⟩ ⟨.bytes b, deadline⟩
  | members {set : Std.ExtTreeSet Bytes} {all : Finset Bytes} (filled : all.Nonempty)
    (deadline : Option Instant) (h : ∀ member, member ∈ all ↔ member ∈ set) :
    Represents ⟨.members set, deadline⟩ ⟨.members all filled, deadline⟩

/-- **A store's contents that hold, at a reading of the clock, what a map holds.** -/
def Simulates (now : Instant) (s : State) (m : TimedMap) : Prop :=
  ∀ key, Option.Rel Represents (s.live now key) (m.present now key)

theorem Represents.deadline {e : Entry} {c : Cell} (h : Represents e c) : e.deadline = c.deadline := by
  cases h <;> rfl

theorem Represents.withDeadline {e : Entry} {c : Cell} (h : Represents e c)
    (deadline : Option Instant) : Represents { e with deadline } { c with deadline } := by
  cases h with
  | bytes b => exact .bytes b deadline
  | members filled _ h => exact .members filled deadline h

theorem Represents.isExpired {e : Entry} {c : Cell} (h : Represents e c) (now : Instant) :
    (!e.isExpired now) = c.isLive now := by
  unfold Entry.isExpired Cell.isLive
  rw [h.deadline]
  cases c.deadline with
  | none => rfl
  | some deadline =>
    by_cases hle : deadline ≤ now
    · simp [hle]
    · simp [hle, Nat.lt_of_not_le hle]

/-- As time passes, what stands for what stays so. -/
theorem filter_represents {held : Option Entry} {cell : Option Cell}
    (h : Option.Rel Represents held cell) (now : Instant) :
    Option.Rel Represents (held.filter fun e => !e.isExpired now)
      (cell.filter fun c => c.isLive now) := by
  cases h with
  | none => exact .none
  | @some e c h =>
    rw [Option.filter_some, Option.filter_some, h.isExpired now]
    cases c.isLive now with
    | true => exact .some h
    | false => exact .none

/-! ## Operations -/

section Operations

variable {held : Option Entry} {cell : Option Cell} {key : String} {now : Instant}

/-- **A rule that answers as the map does, and leaves what the map leaves.** -/
def Agrees (tell : α → Answer) (decided : Except Error α × Update) (held : Option Entry)
    (specified : Except Error Answer × Option Cell) : Prop :=
  decided.1.map tell = specified.1 ∧ Option.Rel Represents (decided.2.after held) specified.2

theorem sum?_eq (a b : Int64) :
    Numeral.sum? a b =
      if -0x8000000000000000 ≤ a.toInt + b.toInt ∧ a.toInt + b.toInt < 0x8000000000000000 then
        some (Int64.ofInt (a.toInt + b.toInt))
      else none := rfl

theorem store_agrees (h : Option.Rel Represents held cell) (a b : Int64) (deadline : Option Instant) :
    Agrees (fun n => .integer (Int64.toInt n)) (Rule.store (Numeral.sum? a b) deadline) held
      (total (a.toInt + b.toInt) deadline cell) := by
  rw [sum?_eq, total]
  split
  · rename_i hfits
    have hvalue : (Int64.ofInt (a.toInt + b.toInt)).toInt = a.toInt + b.toInt :=
      Int64.toInt_ofInt_of_le hfits.1 hfits.2
    refine ⟨congrArg (fun n => Except.ok (Answer.integer n)) hvalue, ?_⟩
    change Option.Rel Represents (some ⟨.bytes (Counter.encode _), deadline⟩) _
    rw [Counter.encode, hvalue]
    exact .some (.bytes _ deadline)
  · exact ⟨rfl, h⟩

theorem increment_agrees (key : String) (h : Option.Rel Represents held cell) (amount : Int64) :
    Agrees (fun n => .integer (Int64.toInt n)) (Rule.increment key amount held false) held
      (add key amount.toInt cell) := by
  cases h with
  | none =>
    have hnone : Option.Rel Represents none none := .none
    have hsum := store_agrees hnone 0 amount none
    rw [show (0 : Int64).toInt = 0 from rfl, Int.zero_add] at hsum
    exact hsum
  | some hrep =>
    cases hrep with
    | members filled deadline hmembers => exact ⟨rfl, .some (.members filled deadline hmembers)⟩
    | bytes b deadline =>
      have hheld : Option.Rel Represents (some ⟨.bytes b, deadline⟩) (some ⟨.bytes b, deadline⟩) :=
        .some (.bytes b deadline)
      unfold Rule.increment add
      dsimp only
      cases Counter.decode key b with
      | error e => exact ⟨rfl, hheld⟩
      | ok current => exact store_agrees hheld current amount deadline

theorem set_agrees {value : Bytes} {ttl : Option Duration} {deadline : Option Instant}
    (hdeadline : State.deadline ttl now = .ok deadline) :
    Agrees (fun _ => Answer.done) (Rule.set value ttl now held false) held
      (.ok .done, some ⟨.bytes value, deadline⟩) := by
  simp only [Rule.set, hdeadline]
  exact ⟨rfl, .some (.bytes value deadline)⟩

theorem expire_agrees (h : Option.Rel Represents held cell) {ttl : Duration}
    (hdeadline : cell.isSome → State.deadline (some ttl) now = .ok (some (now + ttl.nanoseconds))) :
    Agrees Answer.truth (Rule.expire ttl now held false) held
      ((Operation.expire ttl).apply now key cell) := by
  cases h with
  | none => exact ⟨rfl, .none⟩
  | some hrep =>
    simp only [Rule.expire, hdeadline rfl]
    exact ⟨rfl, .some (hrep.withDeadline _)⟩

theorem nonempty_iff_isEmpty {set : Std.ExtTreeSet Bytes} {all : Finset Bytes}
    (h : ∀ member, member ∈ all ↔ member ∈ set) : all.Nonempty ↔ set.isEmpty = false := by
  rw [Std.ExtTreeSet.isEmpty_eq_false_iff]
  constructor
  · rintro ⟨member, hmem⟩ rfl
    exact Std.ExtTreeSet.not_mem_empty ((h member).mp hmem)
  · intro hne
    by_contra hnone
    refine hne (Std.ExtTreeSet.ext_mem fun member => ?_)
    refine ⟨fun hmem => absurd ⟨member, (h member).mpr hmem⟩ hnone, fun hmem => ?_⟩
    exact absurd hmem Std.ExtTreeSet.not_mem_empty

/-- A set is stored unless it is empty. -/
theorem cellOf_represents {set : Std.ExtTreeSet Bytes} {all : Finset Bytes}
    (h : ∀ member, member ∈ all ↔ member ∈ set) (deadline : Option Instant) :
    Option.Rel Represents (if set.isEmpty then none else some ⟨.members set, deadline⟩)
      (cellOf all deadline) := by
  unfold cellOf
  cases hempty : set.isEmpty with
  | true =>
    have hnone : ¬ all.Nonempty := fun hfilled => by
      rw [(nonempty_iff_isEmpty h).mp hfilled] at hempty
      cases hempty
    rw [dif_neg hnone]
    exact .none
  | false =>
    have hfilled : all.Nonempty := (nonempty_iff_isEmpty h).mpr hempty
    rw [dif_pos hfilled]
    exact .some (.members hfilled deadline h)

theorem contains_eq_decide {set : Std.ExtTreeSet Bytes} {all : Finset Bytes} {member : Bytes}
    (h : ∀ member, member ∈ all ↔ member ∈ set) : set.contains member = decide (member ∈ all) := by
  rw [Bool.eq_iff_iff, decide_eq_true_iff, h member, Std.ExtTreeSet.mem_iff_contains]

theorem mem_insert_iff {set : Std.ExtTreeSet Bytes} {all : Finset Bytes} (member : Bytes)
    (h : ∀ member, member ∈ all ↔ member ∈ set) (x : Bytes) :
    x ∈ insert member all ↔ x ∈ set.insert member := by
  rw [Finset.mem_insert, Std.ExtTreeSet.mem_insert, Std.LawfulEqCmp.compare_eq_iff_eq, h x]
  exact or_congr_left eq_comm

theorem mem_erase_iff {set : Std.ExtTreeSet Bytes} {all : Finset Bytes} (member : Bytes)
    (h : ∀ member, member ∈ all ↔ member ∈ set) (x : Bytes) :
    x ∈ all.erase member ↔ x ∈ set.erase member := by
  rw [Finset.mem_erase, Std.ExtTreeSet.mem_erase, ne_eq, ne_eq, Std.LawfulEqCmp.compare_eq_iff_eq, h x]
  exact and_congr_left fun _ => not_congr eq_comm

theorem setAdd_agrees (h : Option.Rel Represents held cell) (member : Bytes) :
    Agrees Answer.truth (Rule.setAdd member held false) held
      ((Operation.setAdd member).apply now key cell) := by
  cases h with
  | none =>
    refine ⟨rfl, ?_⟩
    have hempty : ∀ x, x ∈ (∅ : Finset Bytes) ↔ x ∈ (∅ : Std.ExtTreeSet Bytes) := by
      simp [Std.ExtTreeSet.not_mem_empty]
    have hmembers : ∀ x, x ∈ ({member} : Finset Bytes) ↔
        x ∈ (∅ : Std.ExtTreeSet Bytes).insert member := mem_insert_iff member hempty
    have hrep := cellOf_represents hmembers none
    rw [(nonempty_iff_isEmpty hmembers).mp (Finset.singleton_nonempty member)] at hrep
    exact hrep
  | some hrep =>
    cases hrep with
    | bytes b deadline => exact ⟨rfl, .some (.bytes b deadline)⟩
    | @members set all filled deadline hmembers =>
      have hcell : cellOf all deadline = some ⟨.members all filled, deadline⟩ := dif_pos filled
      simp only [Rule.setAdd, contains_eq_decide hmembers, Operation.apply]
      by_cases hmem : member ∈ all
      · simp only [hmem, decide_true, if_true, Finset.insert_eq_of_mem hmem, hcell]
        exact ⟨by simp [Except.map], .some (.members filled deadline hmembers)⟩
      · simp only [hmem, decide_false, Bool.false_eq_true, if_false]
        refine ⟨by simp [Except.map], ?_⟩
        have hinsert := mem_insert_iff member hmembers
        have hrep := cellOf_represents hinsert deadline
        rw [(nonempty_iff_isEmpty hinsert).mp (Finset.insert_nonempty member all)] at hrep
        exact hrep

theorem setRemove_agrees (h : Option.Rel Represents held cell) (member : Bytes) :
    Agrees Answer.truth (Rule.setRemove member held false) held
      ((Operation.setRemove member).apply now key cell) := by
  cases h with
  | none => exact ⟨rfl, .none⟩
  | some hrep =>
    cases hrep with
    | bytes b deadline => exact ⟨rfl, .some (.bytes b deadline)⟩
    | @members set all filled deadline hmembers =>
      have hcell : cellOf all deadline = some ⟨.members all filled, deadline⟩ := dif_pos filled
      have hcontains : set.contains member = decide (member ∈ all) := contains_eq_decide hmembers
      by_cases hmem : member ∈ all
      · have hrep := cellOf_represents (mem_erase_iff member hmembers) deadline
        simp only [Rule.setRemove, Operation.apply, hcontains, hmem, decide_true, if_true]
        cases hempty : (set.erase member).isEmpty with
        | true =>
          rw [hempty] at hrep
          exact ⟨rfl, hrep⟩
        | false =>
          rw [hempty] at hrep
          exact ⟨rfl, hrep⟩
      · -- a cell's set has members, so the one that stands for it is kept
        rw [Rule.setRemove_of_not_contains (hcontains.trans (decide_eq_false hmem)),
          (nonempty_iff_isEmpty hmembers).mp filled]
        simp only [Operation.apply, hmem, decide_false, Finset.erase_eq_of_notMem hmem, hcell]
        exact ⟨rfl, .some (.members filled deadline hmembers)⟩

/-- A set is listed without repetition. -/
theorem toList_eq_val {set : Std.ExtTreeSet Bytes} {all : Finset Bytes}
    (h : ∀ member, member ∈ all ↔ member ∈ set) : Multiset.ofList set.toList = all.val := by
  have hnodup : set.toList.Nodup := by
    refine Std.ExtTreeSet.distinct_toList.imp fun hne heq => hne ?_
    rw [heq]
    exact Std.ReflCmp.compare_self
  refine (Multiset.Nodup.ext (Multiset.coe_nodup.mpr hnodup) all.nodup).mpr fun member => ?_
  rw [Multiset.mem_coe, Std.ExtTreeSet.mem_toList, ← h member, Finset.mem_val]

theorem setMembers_agrees (h : Option.Rel Represents held cell) :
    Agrees (fun list => Answer.members (Multiset.ofList list)) (Rule.setMembers held false) held
      (Operation.setMembers.apply now key cell) := by
  cases h with
  | none => exact ⟨rfl, .none⟩
  | some hrep =>
    cases hrep with
    | bytes b deadline => exact ⟨rfl, .some (.bytes b deadline)⟩
    | members filled deadline hmembers =>
      refine ⟨congrArg (fun list => Except.ok (Answer.members list)) (toList_eq_val hmembers), ?_⟩
      exact .some (.members filled deadline hmembers)

theorem get_agrees (h : Option.Rel Represents held cell) :
    Agrees Answer.value (Rule.get held false) held (Operation.get.apply now key cell) := by
  cases h with
  | none => exact ⟨rfl, .none⟩
  | some hrep =>
    cases hrep with
    | bytes b deadline => exact ⟨rfl, .some (.bytes b deadline)⟩
    | members filled deadline h => exact ⟨rfl, .some (.members filled deadline h)⟩

theorem getSet_agrees (h : Option.Rel Represents held cell) (value : Bytes) :
    Agrees Answer.value (Rule.getSet value held false) held
      ((Operation.getSet value).apply now key cell) := by
  cases h with
  | none => exact ⟨rfl, .some (.bytes value none)⟩
  | some hrep =>
    cases hrep with
    | bytes => exact ⟨rfl, .some (.bytes value none)⟩
    | members filled deadline h => exact ⟨rfl, .some (.members filled deadline h)⟩

theorem isSome_eq (h : Option.Rel Represents held cell) : held.isSome = cell.isSome := by
  cases h <;> rfl

theorem delete_agrees (h : Option.Rel Represents held cell) :
    Agrees Answer.truth (Rule.delete held false) held (Operation.delete.apply now key cell) := by
  cases h with
  | none => exact ⟨rfl, .none⟩
  | some => exact ⟨rfl, .none⟩

/-- The negative of an integer other than the smallest is a true negative. -/
theorem toInt_neg_of_ne {amount : Int64} (h : amount ≠ Int64.minValue) :
    (-amount).toInt = -amount.toInt := by
  have hmin : amount.toInt ≠ -0x8000000000000000 := fun heq => h (Int64.toInt_inj.mp heq)
  have hle := amount.le_toInt
  have hlt := amount.toInt_lt
  rw [Int64.toInt_neg]
  exact Int.bmod_eq_of_le_mul_two (by omega) (by omega)

theorem decrement_agrees (h : Option.Rel Represents held cell) {amount negated : Int64}
    (hneg : Numeral.neg? amount = some negated) :
    Agrees (fun n => .integer (Int64.toInt n)) (Rule.increment key negated held false) held
      ((Operation.decrement amount).apply now key cell) := by
  unfold Numeral.neg? at hneg
  split at hneg
  · cases hneg
  · rename_i hmin
    cases hneg
    have hsum := increment_agrees key h (-amount)
    rw [toInt_neg_of_ne hmin] at hsum
    simp only [Operation.apply, if_neg hmin]
    exact hsum

/-- A deadline that the clock can show is set. -/
theorem deadline_eq_of_fits {ttl : Option Duration}
    (h : ∀ deadline, ttl.map (now + ·.nanoseconds) = some deadline →
      deadline / 1000000000 < 0x8000000000000000) :
    State.deadline ttl now = .ok (ttl.map (now + ·.nanoseconds)) := by
  cases ttl with
  | none => rfl
  | some d =>
    simp only [State.deadline, Instant.after?, if_pos (h _ rfl)]
    rfl

/-- **Every operation agrees with its counterpart**, where there is room and the clock can show the deadline
that is set. -/
theorem Operation.agrees {op : Operation} {rule : Rule (op.request key).Answer}
    (hrule : Rule.Decides now (op.request key) key rule) (h : Option.Rel Represents held cell)
    (hfits : ∀ c deadline, (op.apply now key cell).2 = some c → c.deadline = some deadline →
      deadline / 1000000000 < 0x8000000000000000) :
    Agrees (op.told key) (rule held false) held (op.apply now key cell) := by
  cases op with
  | get =>
    cases hrule
    exact get_agrees h
  | set value ttl =>
    cases hrule
    exact set_agrees (deadline_eq_of_fits fun deadline hd => hfits _ deadline rfl hd)
  | getSet value =>
    cases hrule
    exact getSet_agrees h value
  | increment amount =>
    cases hrule
    exact increment_agrees key h amount
  | decrement amount =>
    cases hrule with
    | decrement _ hneg => exact decrement_agrees h hneg
  | expire ttl =>
    cases hrule
    refine expire_agrees h fun hsome => ?_
    obtain ⟨c, rfl⟩ := Option.isSome_iff_exists.mp hsome
    exact deadline_eq_of_fits fun deadline hd => hfits _ deadline rfl hd
  | contains =>
    cases hrule
    exact ⟨congrArg (fun b => Except.ok (Answer.truth b)) (isSome_eq h), h⟩
  | delete =>
    cases hrule
    exact delete_agrees h
  | setAdd member =>
    cases hrule
    exact setAdd_agrees h member
  | setRemove member =>
    cases hrule
    exact setRemove_agrees h member
  | setMembers =>
    cases hrule
    exact setMembers_agrees h

theorem total_calm (n : Int) (deadline : Option Instant) (cell : Option Cell) :
    crashed (total n deadline cell).1 = false := by
  unfold total
  split <;> rfl

theorem add_calm (key : String) (amount : Int) (cell : Option Cell) :
    crashed (add key amount cell).1 = false := by
  unfold add
  split
  · exact total_calm ..
  · split
    · exact total_calm ..
    · rfl
  · rfl

/-- An operation on the map does not crash. -/
theorem Operation.calm (now : Instant) (key : String) (op : Operation) (cell : Option Cell) :
    crashed (op.apply now key cell).1 = false := by
  cases op with
  | increment amount => exact add_calm ..
  | decrement amount =>
    rw [Operation.apply]
    split
    · rfl
    · exact add_calm ..
  | _ => rcases cell with _ | ⟨_ | _, _⟩ <;> rfl

end Operations

/-! ## Steps -/

section Steps

variable {s : Store} {m : TimedMap} {key : String} {now later : Instant}

theorem present_perform (m : TimedMap) (now : Instant) (key : String) (op : Operation) (k : String) :
    (m.perform now (.operate key op)).present now k =
      if k = key then (op.apply now key (m.present now key)).2.filter (·.isLive now)
      else m.present now k := by
  unfold perform present
  dsimp only
  split <;> rfl

theorem isLive_of_later {c : Cell} (hle : now ≤ later) (h : c.isLive later = true) :
    c.isLive now = true := by
  unfold Cell.isLive at h ⊢
  cases hd : c.deadline with
  | none => rfl
  | some deadline =>
    simp only [hd, decide_eq_true_eq] at h ⊢
    exact Nat.lt_of_le_of_lt hle h

/-- What is there later was there before, and then it is seen from there. -/
theorem filter_of_later {p q : α → Bool} (h : ∀ a, q a = true → p a = true) (o : Option α) :
    o.filter q = (o.filter p).filter q := by
  have hboth : (fun a => p a && q a) = q := by
    funext a
    cases hq : q a with
    | true => rw [h a hq]; rfl
    | false => exact Bool.and_false _
  rw [Option.filter_filter, hboth]

/-- As time passes, deadlines come, here and there. -/
theorem Simulates.mono {state : State} (h : Simulates now state m) (hle : now ≤ later) :
    Simulates later state m := by
  intro key
  have hlive : state.live later key = (state.live now key).filter (!·.isExpired later) := by
    refine filter_of_later (fun e hnot => ?_) _
    cases hover : e.isExpired now with
    | true =>
      rw [Entry.isExpired_mono hle hover] at hnot
      cases hnot
    | false => rfl
  have hpresent : m.present later key = (m.present now key).filter (·.isLive later) :=
    filter_of_later (fun c => isLive_of_later hle) _
  rw [hlive, hpresent]
  exact filter_represents (h key) later

/-- To a store that is not poisoned an operation happens by its rule, or it is the subtraction of the
smallest integer. -/
theorem Operation.ruled_or_refused (now : Instant) (key : String) (op : Operation) :
    (∃ rule, Rule.Decides now (op.request key) key rule) ∨ op = .decrement Int64.minValue := by
  cases op with
  | decrement amount =>
    by_cases hmin : amount = Int64.minValue
    · exact .inr (hmin ▸ rfl)
    · exact .inl ⟨_, .decrement key (if_neg hmin)⟩
  | get => exact .inl ⟨_, .get key⟩
  | set value ttl => exact .inl ⟨_, .set key value ttl⟩
  | getSet value => exact .inl ⟨_, .getSet key value⟩
  | increment amount => exact .inl ⟨_, .increment key amount⟩
  | expire ttl => exact .inl ⟨_, .expire key ttl⟩
  | contains => exact .inl ⟨_, .contains key⟩
  | delete => exact .inl ⟨_, .delete key⟩
  | setAdd member => exact .inl ⟨_, .setAdd key member⟩
  | setRemove member => exact .inl ⟨_, .setRemove key member⟩
  | setMembers => exact .inl ⟨_, .setMembers key⟩

/-- **A store that stands for a map** at a reading of the clock, and in which nothing has crashed. -/
structure Stands (now : Instant) (s : Store) (m : TimedMap) : Prop where
  simulates : Simulates now s.state m
  sound : s.poisoned = false

/-- **An operation answers as it does on the map**, and leaves a store that stands for what the map has
become. -/
theorem Stands.operate (h : Stands now s m) (hroom : s.state.entries.size < s.maxEntries)
    (op : Operation) (hfits : (m.perform now (.operate key op)).Representable) :
    (s.request now (op.request key)).1.map (op.told key) = (op.apply now key (m.present now key)).1 ∧
      Stands now (s.request now (op.request key)).2 (m.perform now (.operate key op)) := by
  rcases op.ruled_or_refused now key with ⟨rule, hrule⟩ | rfl
  · obtain ⟨hanswer, hleft⟩ := Operation.agrees hrule (h.simulates key) fun c deadline hc hd =>
      hfits key c deadline ((if_pos rfl).trans hc) hd
    have hfull := isFull_purge_of_room hroom key now
    have hlive := live_follow rule hfull
    have hcalm := op.calm now key (m.present now key)
    rw [Store.request_eq_follow hrule, Store.locked_of_sound h.sound]
    have hfst : (s.state.follow rule key s.maxEntries now).1 =
        (rule (s.state.live now key) false).1 := by
      rw [State.follow_fst, hfull]
    rw [← hanswer, Rule.crashed_map, ← hfst] at hcalm
    refine ⟨(congrArg _ hfst).trans hanswer, fun k => ?_, hcalm⟩
    rw [present_perform, hlive]
    dsimp only
    split
    · exact filter_represents hleft now
    · exact h.simulates k
  · refine ⟨rfl, fun k => ?_, h.sound⟩
    rw [present_perform]
    split
    · rename_i hk
      subst hk
      have hkept : (m.present now k).filter (·.isLive now) = m.present now k :=
        (filter_of_later (fun _ => id) (m k)).symm
      rw [show ((Operation.decrement Int64.minValue).apply now k (m.present now k)).2 =
        m.present now k from rfl, hkept]
      exact h.simulates k
    · exact h.simulates k

/-- **A clean-up changes nothing that the map can see.** -/
theorem Stands.cleanUp (h : Stands now s m) : Stands now (s.perform now .cleanUp) m := by
  simp only [Store.perform, h.sound, Bool.false_eq_true, if_false]
  refine ⟨fun key => ?_, h.sound⟩
  have hlive : (s.state.purgeAll now).live now = s.state.live now := (s.state.purgeAll_purges now).live
  change Option.Rel Represents ((s.state.purgeAll now).live now key) _
  rw [hlive]
  exact h.simulates key

theorem Stands.mono (h : Stands now s m) (hle : now ≤ later) : Stands later s m :=
  ⟨h.simulates.mono hle, h.sound⟩

end Steps

/-! ## Runs -/

/-- **A run that leaves room for one key more**, on a store for `max` keys, and sets no deadline that the
clock cannot show. -/
structure Moderate (max : Nat) (run : List (Instant × Step)) : Prop where
  ordered : ∃ t, Ordered 0 run t
  room : ∀ before, before <+: run →
    (({ maxEntries := max } : Store).after (deeds before)).state.entries.size < max
  representable : ∀ before, before <+: run → (TimedMap.empty.after before).Representable

/-- A store that stands for a map answers to a run as the map does. -/
theorem Stands.answers {t t' : Instant} {s : Store} {m : TimedMap} {run : List (Instant × Step)}
    (h : Stands t s m) (hrun : Ordered t run t')
    (hroom : ∀ before, before <+: run → (s.after (deeds before)).state.entries.size < s.maxEntries)
    (hfits : ∀ before, before <+: run → (m.after before).Representable) :
    s.answers run = m.answers run := by
  induction run generalizing t s m with
  | nil => rfl
  | cons event rest ih =>
    obtain ⟨now, step⟩ := event
    have hnow := h.mono hrun.1
    have hfirst : (m.perform now step).Representable :=
      hfits [(now, step)] (List.cons_prefix_cons.mpr ⟨rfl, List.nil_prefix⟩)
    have hroom' : ∀ before, before <+: rest →
        ((s.perform now step.deed).after (deeds before)).state.entries.size <
          (s.perform now step.deed).maxEntries := by
      intro before hbefore
      rw [s.maxEntries_perform]
      exact hroom ((now, step) :: before) (List.cons_prefix_cons.mpr ⟨rfl, hbefore⟩)
    have hfits' : ∀ before, before <+: rest → ((m.perform now step).after before).Representable :=
      fun before hbefore => hfits ((now, step) :: before) (List.cons_prefix_cons.mpr ⟨rfl, hbefore⟩)
    cases step with
    | operate key op =>
      obtain ⟨hanswer, hstands⟩ := hnow.operate (hroom [] List.nil_prefix) op hfirst
      exact List.cons_eq_cons.mpr ⟨hanswer, ih hstands hrun.2 hroom' hfits'⟩
    | cleanUp => exact ih hnow.cleanUp hrun.2 hroom' hfits'

end TimedMap

/-- **A store answers as a map with deadlines.** In every run of operations and clean-ups on an empty store,
at readings of the clock that do not decrease, that keeps fewer keys than there is room for and sets no
deadline that the clock cannot show, every answer is the map's: values, absence, truth, new integers,
members and failures. So clean-ups, wherever they happen, change no answer. -/
theorem answers_eq_timedMap {max : Nat} {run : List (Instant × TimedMap.Step)} (h : TimedMap.Moderate max run) :
    ({ maxEntries := max } : Store).answers run = TimedMap.empty.answers run ∧
      ∀ run', TimedMap.Moderate max run' → TimedMap.operations run' = TimedMap.operations run →
        ({ maxEntries := max } : Store).answers run' = ({ maxEntries := max } : Store).answers run := by
  have hempty : TimedMap.Stands 0 { maxEntries := max } TimedMap.empty := by
    refine ⟨fun key => ?_, rfl⟩
    have hnone : ({} : State).live 0 key = none := by simp [State.live]
    rw [hnone]
    exact .none
  have hall : ∀ run, TimedMap.Moderate max run →
      ({ maxEntries := max } : Store).answers run = TimedMap.empty.answers run := by
    intro run h
    obtain ⟨t, hordered⟩ := h.ordered
    exact hempty.answers hordered h.room h.representable
  refine ⟨hall run h, fun run' h' hsame => ?_⟩
  rw [hall run' h', hall run h, ← TimedMap.answers_operations, hsame, TimedMap.answers_operations]

/-- A text under a deadline and a set of one member; the deadline comes, the member goes, and in the end
neither key is there, whether or not a clean-up came by. -/
theorem answers_eq_timedMap_expired :
    let run : List (Instant × TimedMap.Step) :=
      [(1, .operate "a" (.set [0x78] (some (.ofMillis 1)))), (2, .operate "b" (.setAdd [0x31])),
        (3, .operate "a" (.increment 1)), (2000000, .cleanUp), (2000000, .operate "a" .contains),
        (2000001, .operate "b" (.setRemove [0x31])), (2000002, .operate "b" .get)]
    ({ maxEntries := 3 } : Store).answers run =
      [.ok .done, .ok (.truth true), .error .notAnInteger, .ok (.truth false), .ok (.truth true),
        .ok (.value none)] := by
  intro run
  have hmoderate : TimedMap.Moderate 3 run := by
    refine ⟨⟨2000002, by simp [run, Ordered]⟩, fun before hbefore => ?_, fun before hbefore => ?_⟩
    · have hall : ∀ before ∈ run.inits,
          (({ maxEntries := 3 } : Store).after (TimedMap.deeds before)).state.entries.size < 3 := by decide
      exact hall before ((List.mem_inits before run).mpr hbefore)
    · refine TimedMap.representable_after (fun _ _ _ h => by cases h) fun now key op ttl hmem httl => ?_
      have hrun := hbefore.subset hmem
      simp only [run, List.mem_cons, Prod.mk.injEq, TimedMap.Step.operate.injEq, List.not_mem_nil,
        reduceCtorEq, and_false, false_or, or_false] at hrun
      rcases hrun with ⟨rfl, -, rfl⟩ | ⟨-, -, rfl⟩ | ⟨-, -, rfl⟩ | ⟨-, -, rfl⟩ | ⟨-, -, rfl⟩ |
        ⟨-, -, rfl⟩ <;> cases httl
      rfl
  exact (answers_eq_timedMap hmoderate).1.trans rfl

end WatchedStore.Memory
