import Std.Data.ExtTreeMap.Lemmas
import Std.Data.ExtTreeSet.Lemmas
import WatchedStore.Memory.State

/-!
# Operations, read at their key

Every operation is about one key. It purges the key, looks at what the key holds by then and at whether
there is room for it, answers, and keeps, replaces or removes the entry. A `Rule` is that decision by
itself; `State.follow` carries it out.

**The law** (`get_eq_follow` to `setMembers_eq_follow`, and `apply_eq_follow` for queued commands): each
operation follows its rule. Later modules argue about `follow` and about rules, and open no operation
again.

A rule also says when it touches its key, and the answer shows it (`Rule.Shows`): a write that succeeded,
or a yes to a question of the kind "was there anything to change". So whether a key was changed can be
read off the answers alone. An entry goes without a touch in one case, which no answer shows: it is a set
that was empty before.
-/

namespace WatchedStore.Memory

/-! ## Single keys -/

/-- An entry whose time is over stays so. -/
theorem Entry.isExpired_mono {e : Entry} {now later : Instant} (hle : now ≤ later)
    (h : e.isExpired now = true) : e.isExpired later = true := by
  unfold isExpired at h ⊢
  cases hd : e.deadline with
  | none => simp [hd] at h
  | some deadline =>
    simp only [hd, decide_eq_true_eq] at h ⊢
    exact Nat.le_trans h hle

namespace State

/-- Whether a key holds an entry whose time is over. -/
def Overdue (s : State) (key : String) (now : Instant) : Prop :=
  ∃ e, s.entries[key]? = some e ∧ e.isExpired now = true

theorem Overdue.mono {s : State} {key : String} {now later : Instant} (h : s.Overdue key now)
    (hle : now ≤ later) : s.Overdue key later := by
  obtain ⟨e, he, hover⟩ := h
  exact ⟨e, he, Entry.isExpired_mono hle hover⟩

/-- **What a key holds at a reading of the clock**; an entry whose time is over does not count. -/
def live (s : State) (now : Instant) (key : String) : Option Entry :=
  s.entries[key]?.filter fun e => !e.isExpired now

@[simp] theorem entries_put (s : State) (key k : String) (e : Entry) :
    (s.put key e).entries[k]? = if key = k then some e else s.entries[k]? := by
  simp only [put, touch, Std.ExtTreeMap.getElem?_insert, Std.LawfulEqCmp.compare_eq_iff_eq]

@[simp] theorem entries_erase (s : State) (key k : String) :
    (s.erase key).entries[k]? = if key = k then none else s.entries[k]? := by
  simp only [erase, Std.ExtTreeMap.getElem?_erase, Std.LawfulEqCmp.compare_eq_iff_eq]

@[simp] theorem entries_remove (s : State) (key k : String) :
    (s.remove key).entries[k]? = if key = k then none else s.entries[k]? :=
  s.entries_erase key k

@[simp] theorem version_put (s : State) (key k : String) (e : Entry) :
    (s.put key e).version k = if key = k then s.clock + 1 else s.version k := by
  simp only [version, put, touch, Std.ExtTreeMap.getElem?_insert, Std.LawfulEqCmp.compare_eq_iff_eq]
  split <;> rfl

@[simp] theorem version_remove (s : State) (key k : String) :
    (s.remove key).version k = if key = k then s.clock + 1 else s.version k := by
  simp only [version, remove, erase, touch, Std.ExtTreeMap.getElem?_insert,
    Std.LawfulEqCmp.compare_eq_iff_eq]
  split <;> rfl

@[simp] theorem clock_put (s : State) (key : String) (e : Entry) :
    (s.put key e).clock = s.clock + 1 := rfl

@[simp] theorem clock_remove (s : State) (key : String) : (s.remove key).clock = s.clock + 1 := rfl

theorem purge_of_overdue {s : State} {key : String} {now : Instant} (h : s.Overdue key now) :
    s.purge key now = s.remove key := by
  obtain ⟨e, he, hover⟩ := h
  simp only [purge, he, hover, if_true]

theorem purge_of_not_overdue {s : State} {key : String} {now : Instant} (h : ¬ s.Overdue key now) :
    s.purge key now = s := by
  unfold purge
  cases he : s.entries[key]? with
  | none => rfl
  | some e =>
    have hnot : ¬ e.isExpired now = true := fun hover => h ⟨e, he, hover⟩
    simp only [if_neg hnot]

/-- After a purge the key holds what it holds at that reading. -/
theorem entries_purge_self (s : State) (key : String) (now : Instant) :
    (s.purge key now).entries[key]? = s.live now key := by
  unfold live
  by_cases h : s.Overdue key now
  · obtain ⟨e, he, hover⟩ := h
    rw [purge_of_overdue ⟨e, he, hover⟩, entries_remove, if_pos rfl, he]
    simp only [Option.filter_some, hover, Bool.not_true, Bool.false_eq_true, if_false]
  · rw [purge_of_not_overdue h]
    cases he : s.entries[key]? with
    | none => rfl
    | some e =>
      have hnot : e.isExpired now = false :=
        Bool.eq_false_iff.mpr fun hover => h ⟨e, he, hover⟩
      simp only [Option.filter_some, hnot, Bool.not_false, if_true]

theorem entries_purge_of_ne (s : State) {key k : String} (now : Instant) (h : key ≠ k) :
    (s.purge key now).entries[k]? = s.entries[k]? := by
  by_cases hover : s.Overdue key now
  · rw [purge_of_overdue hover, entries_remove, if_neg h]
  · rw [purge_of_not_overdue hover]

theorem not_overdue_purge (s : State) (key : String) (now : Instant) :
    ¬ (s.purge key now).Overdue key now := by
  rintro ⟨e, he, hover⟩
  rw [entries_purge_self] at he
  have hnot := (Option.filter_eq_some_iff.mp he).2
  simp only [hover, Bool.not_true, Bool.false_eq_true] at hnot

theorem purge_purge (s : State) (key : String) (now : Instant) :
    (s.purge key now).purge key now = s.purge key now :=
  purge_of_not_overdue (s.not_overdue_purge key now)

theorem live_of_not_overdue {s : State} {key : String} {now : Instant} (h : ¬ s.Overdue key now) :
    s.live now key = s.entries[key]? := by
  rw [← entries_purge_self, purge_of_not_overdue h]

theorem live_purge (s : State) (key : String) (now : Instant) :
    (s.purge key now).live now = s.live now := by
  funext k
  by_cases h : key = k
  · subst h
    rw [← entries_purge_self, purge_purge, entries_purge_self]
  · simp only [live, s.entries_purge_of_ne now h]

end State

/-! ## Rules -/

/-- What becomes of the entry under a key. What is stored or dropped gives the key a new version; what is
only erased does not. -/
inductive Update where
  | keep
  | put (e : Entry)
  | drop
  | erase

/-- **How an operation decides**: from what its key holds and whether there is no room for the key, an
answer and what becomes of the entry. -/
abbrev Rule (α : Type) := Option Entry → Bool → Except Error α × Update

namespace State

/-- Carries out what becomes of an entry. -/
def update (s : State) (key : String) : Update → State
  | .keep => s
  | .put e => s.put key e
  | .drop => s.remove key
  | .erase => s.erase key

/-- Purges a key, decides by a rule, and carries the decision out. -/
def follow (rule : Rule α) (key : String) (max : Nat) (now : Instant) (s : State) :
    Except Error α × State :=
  let s := s.purge key now
  let (answer, change) := rule s.entries[key]? (s.isFull key max)
  (answer, s.update key change)

end State

namespace Rule

/-- The rule with its answer put another way. -/
def map (f : α → β) (rule : Rule α) : Rule β := fun held full =>
  ((rule held full).1.map f, (rule held full).2)

/-- The bytes that are held. -/
def get : Rule (Option Bytes)
  | some ⟨.bytes b, _⟩, _ => (.ok (some b), .keep)
  | some ⟨.members _, _⟩, _ => (.error .wrongType, .keep)
  | none, _ => (.ok none, .keep)

/-- Bytes in place of anything, if there is room and the clock can show the deadline. -/
def set (value : Bytes) (ttl : Option Duration) (now : Instant) : Rule Unit := fun _ full =>
  if full then (.error .capacityExceeded, .keep)
  else
    match State.deadline ttl now with
    | .ok until_ => (.ok (), .put ⟨.bytes value, until_⟩)
    | .error e => (.error e, .keep)

/-- Bytes for good in place of bytes or nothing. -/
def getSet (value : Bytes) : Rule (Option Bytes) := fun held full =>
  match (get held full).1 with
  | .error e => (.error e, .keep)
  | .ok previous =>
    if full then (.error .capacityExceeded, .keep) else (.ok previous, .put ⟨.bytes value, none⟩)

/-- The sum in place of an integer, with the same deadline. -/
def store (sum? : Option Int64) (until_ : Option Instant) : Except Error Int64 × Update :=
  match sum? with
  | some sum => (.ok sum, .put ⟨.bytes (Counter.encode sum), until_⟩)
  | none => (.error .overflow, .keep)

/-- The sum in place of an integer; nothing counts as zero. -/
def increment (key : String) (amount : Int64) : Rule Int64
  | some ⟨.bytes b, until_⟩, _ =>
    match Counter.decode key b with
    | .ok current => store (Numeral.sum? current amount) until_
    | .error _ => (.error .notAnInteger, .keep)
  | some ⟨.members _, _⟩, _ => (.error .wrongType, .keep)
  | none, full =>
    if full then (.error .capacityExceeded, .keep) else store (Numeral.sum? 0 amount) none

/-- Another deadline for what is held. -/
def expire (ttl : Duration) (now : Instant) : Rule Bool
  | some e, _ =>
    match State.deadline (some ttl) now with
    | .ok until_ => (.ok true, .put { e with deadline := until_ })
    | .error e => (.error e, .keep)
  | none, _ => (.ok false, .keep)

/-- Whether anything is held. -/
def contains : Rule Bool := fun held _ => (.ok held.isSome, .keep)

/-- Nothing in place of what is held. -/
def delete : Rule Bool
  | some _, _ => (.ok true, .drop)
  | none, _ => (.ok false, .keep)

/-- One member more, with the same deadline. -/
def setAdd (member : Bytes) : Rule Bool
  | some ⟨.members set, until_⟩, _ =>
    if set.contains member then (.ok false, .keep)
    else (.ok true, .put ⟨.members (set.insert member), until_⟩)
  | some ⟨.bytes _, _⟩, _ => (.error .wrongType, .keep)
  | none, full =>
    if full then (.error .capacityExceeded, .keep)
    else (.ok true, .put ⟨.members ((∅ : Std.ExtTreeSet Bytes).insert member), none⟩)

/-- One member less, with the same deadline, and nothing in place of a set without members, also if the
member was not in it. -/
def setRemove (member : Bytes) : Rule Bool
  | some ⟨.members set, until_⟩, _ =>
    if set.contains member then
      if (set.erase member).isEmpty then (.ok true, .drop)
      else (.ok true, .put ⟨.members (set.erase member), until_⟩)
    else if (set.erase member).isEmpty then (.ok false, .erase)
    else (.ok false, .keep)
  | some ⟨.bytes _, _⟩, _ => (.error .wrongType, .keep)
  | none, _ => (.ok false, .keep)

theorem erase_of_not_contains {set : Std.ExtTreeSet Bytes} {member : Bytes}
    (h : set.contains member = false) : set.erase member = set := by
  refine Std.ExtTreeSet.ext_mem fun x => ?_
  rw [Std.ExtTreeSet.mem_erase, ne_eq, Std.LawfulEqCmp.compare_eq_iff_eq]
  refine and_iff_right_of_imp fun hx hmember => ?_
  rw [hmember, Std.ExtTreeSet.mem_iff_contains.mp hx] at h
  cases h

/-- A set that loses no member is kept, unless it had none. -/
theorem setRemove_of_not_contains {set : Std.ExtTreeSet Bytes} {member : Bytes}
    (h : set.contains member = false) (until_ : Option Instant) (full : Bool) :
    setRemove member (some ⟨.members set, until_⟩) full =
      (.ok false, if set.isEmpty then .erase else .keep) := by
  simp only [setRemove, h, Bool.false_eq_true, if_false, erase_of_not_contains h]
  split <;> rfl

/-- The members that are held. -/
def setMembers : Rule (List Bytes)
  | some ⟨.members set, _⟩, _ => (.ok set.toList, .keep)
  | some ⟨.bytes _, _⟩, _ => (.error .wrongType, .keep)
  | none, _ => (.ok [], .keep)

end Rule

/-! ## Operations follow their rules -/

namespace State

variable (s : State) (key : String) (max : Nat) (now : Instant)

theorem get_eq_follow : s.get key now = s.follow Rule.get key max now := by
  unfold get follow
  dsimp only
  cases (s.purge key now).entries[key]? with
  | none => rfl
  | some e =>
    obtain ⟨held, until_⟩ := e
    cases held <;> rfl

/-- The reader that spares the contents answers, and leaves behind, what the other one does. -/
theorem read_eq_get : s.read key now = s.get key now := by
  unfold read
  cases he : s.entries[key]? with
  | none =>
    have h : ¬ s.Overdue key now := by
      rintro ⟨e, h, -⟩
      rw [he] at h
      cases h
    simp only [get, purge_of_not_overdue h, he]
  | some e =>
    dsimp only
    split
    · rfl
    · rename_i hnot
      have h : ¬ s.Overdue key now := by
        rintro ⟨e', h, hover⟩
        rw [he] at h
        cases h
        exact hnot hover
      obtain ⟨value, until_⟩ := e
      cases value <;> simp only [get, purge_of_not_overdue h, he]

theorem set_eq_follow (value : Bytes) (ttl : Option Duration) :
    s.set key value ttl max now = s.follow (Rule.set value ttl now) key max now := by
  unfold set follow Rule.set
  dsimp only
  cases (s.purge key now).isFull key max with
  | true => rfl
  | false => cases deadline ttl now <;> rfl

theorem getSet_eq_follow (value : Bytes) :
    s.getSet key value max now = s.follow (Rule.getSet value) key max now := by
  have hset : s.getSet key value max now =
      match (s.get key now).1 with
      | .error e => (.error e, s.purge key now)
      | .ok previous =>
        if (s.purge key now).isFull key max then (.error .capacityExceeded, s.purge key now)
        else (.ok previous, (s.purge key now).put key ⟨.bytes value, none⟩) := by
    unfold getSet
    rw [get_eq_follow s key max]
    cases h : (s.purge key now).entries[key]? with
    | none =>
      cases hfull : (s.purge key now).isFull key max <;>
        simp [follow, Rule.get, update, set, purge_purge, deadline, h, hfull]
    | some e =>
      obtain ⟨held, until_⟩ := e
      cases held <;> cases hfull : (s.purge key now).isFull key max <;>
        simp [follow, Rule.get, update, set, purge_purge, deadline, h, hfull]
  rw [hset, get_eq_follow s key max]
  unfold follow Rule.getSet
  dsimp only
  cases (Rule.get (s.purge key now).entries[key]? ((s.purge key now).isFull key max)).1 with
  | error e => rfl
  | ok previous => cases (s.purge key now).isFull key max <;> rfl

theorem store_eq_update (sum? : Option Int64) (until_ : Option Instant) :
    s.store key sum? until_ =
      ((Rule.store sum? until_).1, s.update key (Rule.store sum? until_).2) := by
  cases sum? <;> rfl

theorem increment_eq_follow (amount : Int64) :
    s.increment key amount max now = s.follow (Rule.increment key amount) key max now := by
  unfold increment follow Rule.increment
  dsimp only
  cases (s.purge key now).entries[key]? with
  | none =>
    cases (s.purge key now).isFull key max with
    | true => rfl
    | false => exact store_eq_update ..
  | some e =>
    obtain ⟨held, until_⟩ := e
    cases held with
    | members set => rfl
    | bytes b =>
      dsimp only
      cases Counter.decode key b with
      | error e => rfl
      | ok current => exact store_eq_update ..

theorem expire_eq_follow (ttl : Duration) :
    s.expire key ttl now = s.follow (Rule.expire ttl now) key max now := by
  unfold expire follow Rule.expire
  dsimp only
  cases (s.purge key now).entries[key]? with
  | none => rfl
  | some e =>
    dsimp only
    cases deadline (some ttl) now <;> rfl

theorem contains_eq_follow :
    s.contains key now = s.follow Rule.contains key max now := by
  simp only [contains, follow, Rule.contains, update, Std.ExtTreeMap.contains_eq_isSome_getElem?]

theorem delete_eq_follow : s.delete key now = s.follow Rule.delete key max now := by
  simp only [delete, follow, Rule.delete, Std.ExtTreeMap.contains_eq_isSome_getElem?]
  cases (s.purge key now).entries[key]? <;> rfl

theorem setAdd_eq_follow (member : Bytes) :
    s.setAdd key member max now = s.follow (Rule.setAdd member) key max now := by
  unfold setAdd follow Rule.setAdd
  dsimp only
  cases (s.purge key now).entries[key]? with
  | none => cases (s.purge key now).isFull key max <;> rfl
  | some e =>
    obtain ⟨held, until_⟩ := e
    cases held with
    | bytes b => rfl
    | members set =>
      dsimp only
      cases set.contains member <;> rfl

/-- Stored once more, an entry changes nothing. -/
theorem insert_of_held {s : State} {key : String} {e : Entry} (h : s.entries[key]? = some e) :
    { s with entries := s.entries.insert key e } = s := by
  have hentries : s.entries.insert key e = s.entries := by
    refine Std.ExtTreeMap.ext_getElem? fun k => ?_
    simp only [Std.ExtTreeMap.getElem?_insert, Std.LawfulEqCmp.compare_eq_iff_eq]
    split
    · rename_i hk
      rw [← hk, h]
    · rfl
  rw [hentries]

theorem setRemove_eq_follow (member : Bytes) :
    s.setRemove key member now = s.follow (Rule.setRemove member) key max now := by
  unfold setRemove follow Rule.setRemove
  dsimp only
  cases hheld : (s.purge key now).entries[key]? with
  | none => rfl
  | some e =>
    obtain ⟨held, until_⟩ := e
    cases held with
    | bytes b => rfl
    | members set =>
      dsimp only
      cases hin : set.contains member with
      | true => cases (set.erase member).isEmpty <;> rfl
      | false =>
        cases (set.erase member).isEmpty with
        | true => rfl
        | false =>
          -- a set that loses no member is stored as it was
          rw [Rule.erase_of_not_contains hin]
          exact congrArg (Prod.mk _) (insert_of_held hheld)

theorem setMembers_eq_follow :
    s.setMembers key now = s.follow Rule.setMembers key max now := by
  unfold setMembers follow
  dsimp only
  cases (s.purge key now).entries[key]? with
  | none => rfl
  | some e =>
    obtain ⟨held, until_⟩ := e
    cases held <;> rfl

end State

/-! ## Queued commands -/

/-- The rule of a queued command: that of its operation, answered by a reply. -/
def Rule.ofCommand (now : Instant) : Command → Rule Reply
  | .get _ => Rule.get.map State.dataReply
  | .set _ value ttl => (Rule.set value ttl now).map fun _ => .status "OK"
  | .increment key amount => (Rule.increment key amount).map .integer
  | .expire _ ttl => (Rule.expire ttl now).map .ofBool
  | .delete _ => Rule.delete.map .ofBool
  | .setAdd _ member => (Rule.setAdd member).map .ofBool
  | .setRemove _ member => (Rule.setRemove member).map .ofBool

end WatchedStore.Memory

namespace WatchedStore

/-- The key that a command is about. -/
def Command.key : Command → String
  | .get key | .set key .. | .increment key _ | .expire key _ | .delete key | .setAdd key _
  | .setRemove key _ => key

end WatchedStore

namespace WatchedStore.Memory.State

/-- Telling an answer as a reply is following the rule that answers by the reply. -/
theorem reply_follow (f : α → Reply) (rule : Rule α) (key : String) (max : Nat) (now : Instant)
    (s : State) : reply f (s.follow rule key max now) = s.follow (rule.map f) key max now := by
  unfold follow Rule.map
  dsimp only
  cases (rule (s.purge key now).entries[key]? ((s.purge key now).isFull key max)).1 <;> rfl

/-- **A queued command follows its rule.** -/
theorem apply_eq_follow (s : State) (c : Command) (max : Nat) (now : Instant) :
    s.apply c max now = s.follow (Rule.ofCommand now c) c.key max now := by
  cases c with
  | get key => rw [apply, get_eq_follow s key max, reply_follow]; rfl
  | set key value ttl => rw [apply, set_eq_follow, reply_follow]; rfl
  | increment key amount => rw [apply, increment_eq_follow, reply_follow]; rfl
  | expire key ttl => rw [apply, expire_eq_follow s key max, reply_follow]; rfl
  | delete key => rw [apply, delete_eq_follow s key max, reply_follow]; rfl
  | setAdd key member => rw [apply, setAdd_eq_follow, reply_follow]; rfl
  | setRemove key member => rw [apply, setRemove_eq_follow s key max, reply_follow]; rfl

end WatchedStore.Memory.State
