import WatchedStore.Proofs.Memory.Refinement

/-!
# What commands leave behind

A queued command follows a rule, and the rule looks at two things: what its key holds, and whether there is
room for the key. A command that succeeds has not been short of room, so what it leaves under its key is
known from what the key held (`Command.leaves`). A batch without a failure is such a command, and then
another one (`Carries`). So what a batch does can be told of what keys hold alone, with no store in between.

**The laws**: a batch with no error among its replies has carried its commands out (`carries_of_succeeds`),
and a command that can be carried out and has room does not fail (`apply_of_accepts`).
-/

namespace WatchedStore

namespace Memory

/-- **What keys hold**, as it is seen at one reading of the clock. -/
abbrev Contents := String → Option Entry

/-- Whether there is nothing to be seen whose time is over. -/
def Current (now : Instant) (m : Contents) : Prop := ∀ key e, m key = some e → e.isExpired now = false

/-- Whether a key holds a set with this member. -/
def HasMember (held : Option Entry) (member : Bytes) : Prop :=
  ∃ set until_, held = some ⟨.members set, until_⟩ ∧ member ∈ set

/-- **A key that holds a set with members, or nothing.** -/
def HoldsMembers (held : Option Entry) : Prop :=
  ∀ e, held = some e → ∃ set, e.value = .members set ∧ set.isEmpty = false

@[simp] theorem not_hasMember_none (member : Bytes) : ¬ HasMember none member := by
  rintro ⟨_, _, h, -⟩
  cases h

@[simp] theorem not_hasMember_bytes (b : Bytes) (until_ : Option Instant) (member : Bytes) :
    ¬ HasMember (some ⟨.bytes b, until_⟩) member := by
  rintro ⟨_, _, h, -⟩
  cases h

@[simp] theorem hasMember_members {set : Std.ExtTreeSet Bytes} {until_ : Option Instant} {member : Bytes} :
    HasMember (some ⟨.members set, until_⟩) member ↔ member ∈ set := by
  constructor
  · rintro ⟨_, _, h, hmem⟩
    cases h
    exact hmem
  · exact fun hmem => ⟨set, until_, rfl, hmem⟩

theorem HasMember.of_filter {held : Option Entry} {p : Entry → Bool} {member : Bytes}
    (h : HasMember (held.filter p) member) : HasMember held member := by
  obtain ⟨set, until_, hset, hmem⟩ := h
  exact ⟨set, until_, (Option.filter_eq_some_iff.mp hset).1, hmem⟩

/-- A set without a member is not there. -/
theorem HoldsMembers.eq_none {held : Option Entry} (h : HoldsMembers held)
    (hnone : ∀ member, ¬ HasMember held member) : held = none := by
  refine Option.eq_none_iff_forall_not_mem.mpr fun e he => ?_
  obtain ⟨set, hvalue, hfilled⟩ := h e he
  obtain ⟨_, until_⟩ := e
  cases hvalue
  refine Std.ExtTreeSet.isEmpty_eq_false_iff.mp hfilled (Std.ExtTreeSet.ext_mem fun member => ?_)
  exact ⟨fun hmem => absurd ⟨set, until_, he, hmem⟩ (hnone member),
    fun hmem => absurd hmem Std.ExtTreeSet.not_mem_empty⟩

theorem Entry.not_isExpired_of_later {e : Entry} {now later : Instant} (hle : now ≤ later)
    (h : (!e.isExpired later) = true) : (!e.isExpired now) = true := by
  cases hover : e.isExpired now with
  | true =>
    rw [Entry.isExpired_mono hle hover] at h
    cases h
  | false => rfl

namespace State

variable {now later : Instant}

theorem live_current (s : State) (now : Instant) : Current now (s.live now) :=
  fun _ _ => not_expired_of_live

/-- As time passes, entries disappear, and that is all. -/
theorem live_later (s : State) (hle : now ≤ later) (key : String) :
    s.live later key = (s.live now key).filter (!·.isExpired later) :=
  TimedMap.filter_of_later (fun _ => Entry.not_isExpired_of_later hle) _

/-- **An operation replaces what its key holds** by what its rule says, and nothing else. -/
theorem live_follow_eq (rule : Rule α) (key : String) (max : Nat) (now : Instant) (s : State) :
    (s.follow rule key max now).2.live now = fun k =>
      if k = key then
        ((rule (s.live now key) ((s.purge key now).isFull key max)).2.after
          (s.live now key)).filter (!·.isExpired now)
      else s.live now k := by
  unfold follow
  dsimp only
  rw [live_update, entries_purge_self, s.live_purge key now]

end State

end Memory

namespace Command

open Memory

/-- Whether a command succeeds where its key holds this, if there is room. -/
def Accepts (now : Instant) (c : Command) (held : Option Entry) : Prop :=
  ∃ reply, (Rule.ofCommand now c held false).1 = .ok reply

/-- **What a command leaves under its key**, by what the key held. -/
def leaves (now : Instant) (c : Command) (held : Option Entry) : Option Entry :=
  ((Rule.ofCommand now c held false).2.after held).filter (!·.isExpired now)

/-- What keys hold after a command. -/
def carry (now : Instant) (c : Command) (m : Contents) : Contents := fun key =>
  if key = c.key then c.leaves now (m key) else m key

variable {now : Instant} {c : Command} {m : Contents} {held : Option Entry}

@[simp] theorem carry_self : c.carry now m c.key = c.leaves now (m c.key) := if_pos rfl

theorem carry_of_ne {key : String} (h : key ≠ c.key) : c.carry now m key = m key := if_neg h

theorem leaves_current {e : Entry} (h : c.leaves now held = some e) : e.isExpired now = false := by
  simpa using (Option.filter_eq_some_iff.mp h).2

theorem carry_current (hm : Current now m) : Current now (c.carry now m) := by
  intro key e h
  unfold carry at h
  split at h
  · exact leaves_current h
  · exact hm key e h

/-! ## One command -/

theorem map_ok {answer : Except Error α} {f : α → Reply} {reply : Reply} (h : answer.map f = .ok reply) :
    ∃ a, answer = .ok a := by
  cases answer with
  | error e => cases h
  | ok a => exact ⟨a, rfl⟩

theorem leaves_set {key : String} {value : Bytes} {ttl : Option Duration}
    (h : (set key value ttl).Accepts now held) :
    ∃ until_, State.deadline ttl now = .ok until_ ∧
      (set key value ttl).leaves now held = (some ⟨.bytes value, until_⟩).filter (!·.isExpired now) := by
  obtain ⟨reply, h⟩ := h
  obtain ⟨u, hu⟩ := map_ok h
  unfold leaves
  simp only [Rule.ofCommand, Rule.map, Rule.set, Bool.false_eq_true, if_false] at hu ⊢
  cases hdeadline : State.deadline ttl now with
  | error e =>
    rw [hdeadline] at hu
    cases hu
  | ok until_ => exact ⟨until_, rfl, rfl⟩

theorem accepts_set {key : String} {value : Bytes} {ttl : Option Duration} {until_ : Option Instant}
    (h : State.deadline ttl now = .ok until_) : (set key value ttl).Accepts now held :=
  ⟨.status "OK", by simp only [Rule.ofCommand, Rule.map, Rule.set, h]; rfl⟩

theorem accepts_expire {key : String} {ttl : Duration} {until_ : Option Instant}
    (h : State.deadline (some ttl) now = .ok until_) : (expire key ttl).Accepts now held := by
  cases held with
  | none => exact ⟨_, rfl⟩
  | some e => exact ⟨.ofBool true, by simp only [Rule.ofCommand, Rule.map, Rule.expire, h]; rfl⟩

theorem leaves_expire {key : String} {ttl : Duration} {e : Entry}
    (h : (expire key ttl).Accepts now (some e)) :
    ∃ until_, State.deadline (some ttl) now = .ok until_ ∧
      (expire key ttl).leaves now (some e) =
        (some { e with deadline := until_ }).filter (!·.isExpired now) := by
  obtain ⟨reply, h⟩ := h
  obtain ⟨u, hu⟩ := map_ok h
  unfold leaves
  simp only [Rule.ofCommand, Rule.map, Rule.expire] at hu ⊢
  cases hdeadline : State.deadline (some ttl) now with
  | error e =>
    rw [hdeadline] at hu
    cases hu
  | ok until_ => exact ⟨until_, rfl, rfl⟩

theorem leaves_delete (now : Instant) (key : String) (held : Option Entry) :
    (delete key).leaves now held = none := by
  cases held <;> rfl

theorem accepts_delete (now : Instant) (key : String) (held : Option Entry) :
    (delete key).Accepts now held := by
  cases held <;> exact ⟨_, rfl⟩

theorem mem_insert {set : Std.ExtTreeSet Bytes} {member x : Bytes} :
    x ∈ set.insert member ↔ x = member ∨ x ∈ set := by
  rw [Std.ExtTreeSet.mem_insert, Std.LawfulEqCmp.compare_eq_iff_eq, eq_comm]

theorem mem_erase {set : Std.ExtTreeSet Bytes} {member x : Bytes} :
    x ∈ set.erase member ↔ x ≠ member ∧ x ∈ set := by
  rw [Std.ExtTreeSet.mem_erase, ne_eq, Std.LawfulEqCmp.compare_eq_iff_eq, ne_eq, eq_comm (a := x)]

/-- **A set with one member more**, with the deadline that it had. -/
theorem leaves_setAdd (key member) (hset : HoldsMembers held)
    (hheld : ∀ e, held = some e → e.isExpired now = false) :
    (setAdd key member).Accepts now held ∧
      ∃ set, (setAdd key member).leaves now held = some ⟨.members set, held.bind Entry.deadline⟩ ∧
        ∀ x, x ∈ set ↔ x = member ∨ HasMember held x := by
  rcases held with _ | ⟨_ | set, until_⟩
  · refine ⟨⟨_, rfl⟩, (∅ : Std.ExtTreeSet Bytes).insert member, rfl, fun x => ?_⟩
    rw [mem_insert]
    simp [Std.ExtTreeSet.not_mem_empty]
  · obtain ⟨set, hvalue, -⟩ := hset _ rfl
    cases hvalue
  · have hnot : ∀ set', (⟨.members set', until_⟩ : Entry).isExpired now = false :=
      fun _ => hheld ⟨.members set, until_⟩ rfl
    simp only [Accepts, leaves, Rule.ofCommand, Rule.map, Rule.setAdd, hasMember_members]
    cases hmem : set.contains member with
    | true =>
      have hin : member ∈ set := Std.ExtTreeSet.mem_iff_contains.mpr hmem
      refine ⟨⟨_, rfl⟩, set, by simp [Update.after, hnot], fun x => ⟨.inr, ?_⟩⟩
      rintro (rfl | hx)
      · exact hin
      · exact hx
    | false =>
      exact ⟨⟨_, rfl⟩, set.insert member, by simp [Update.after, hnot], fun x => mem_insert⟩

/-- **A set with one member less**, with the deadline that it had; nothing, if no member is left. -/
theorem leaves_setRemove (key member) (hset : HoldsMembers held)
    (hheld : ∀ e, held = some e → e.isExpired now = false) :
    (setRemove key member).Accepts now held ∧
      HoldsMembers ((setRemove key member).leaves now held) ∧
      (∀ e, (setRemove key member).leaves now held = some e →
        ∃ before, held = some before ∧ before.deadline = e.deadline) ∧
      ∀ x, HasMember ((setRemove key member).leaves now held) x ↔ x ≠ member ∧ HasMember held x := by
  rcases held with _ | ⟨_ | set, until_⟩
  · refine ⟨⟨_, rfl⟩, fun _ h => (by cases h), fun _ h => (by cases h), fun x => ?_⟩
    simp [leaves, Rule.ofCommand, Rule.map, Rule.setRemove, Update.after]
  · obtain ⟨set, hvalue, -⟩ := hset _ rfl
    cases hvalue
  · have hnot : ∀ set', (⟨.members set', until_⟩ : Entry).isExpired now = false :=
      fun _ => hheld ⟨.members set, until_⟩ rfl
    cases hmem : set.contains member with
    | false =>
      have hout : ∀ x, x ∈ set → x ≠ member := by
        rintro x hx rfl
        rw [Std.ExtTreeSet.mem_iff_contains.mp hx] at hmem
        cases hmem
      have hfilled : set.isEmpty = false := by
        obtain ⟨_, hvalue, hfilled⟩ := hset _ rfl
        cases hvalue
        exact hfilled
      simp only [Accepts, leaves, Rule.ofCommand, Rule.map, Rule.setRemove_of_not_contains hmem, hfilled,
        Bool.false_eq_true, if_false, Update.after, Option.filter_some, hnot, Bool.not_false, if_true,
        hasMember_members]
      exact ⟨⟨_, rfl⟩, hset, fun e h => ⟨e, h, rfl⟩, fun x => ⟨fun hx => ⟨hout x hx, hx⟩, And.right⟩⟩
    | true =>
      simp only [Accepts, leaves, Rule.ofCommand, Rule.map, Rule.setRemove, hmem, hasMember_members]
      cases hempty : (set.erase member).isEmpty with
      | true =>
        -- the last member takes the key with it
        refine ⟨⟨_, rfl⟩, fun _ h => (by cases h), fun _ h => (by cases h), fun x => ?_⟩
        rw [← mem_erase, Std.ExtTreeSet.isEmpty_iff.mp hempty]
        simp [Update.after, Std.ExtTreeSet.not_mem_empty]
      | false =>
        simp only [if_true, Bool.false_eq_true, if_false, Update.after, Option.filter_some, hnot,
          Bool.not_false, hasMember_members]
        refine ⟨⟨_, rfl⟩, fun e h => ?_, fun e h => ?_, fun x => mem_erase⟩
        · cases h
          exact ⟨_, rfl, hempty⟩
        · cases h
          exact ⟨_, rfl, rfl⟩

/-! ## One command on a store -/

/-- A command that makes no key, and so does not ask for room. -/
def Roomless (c : Command) : Prop :=
  ∀ now held, Rule.ofCommand now c held true = Rule.ofCommand now c held false

theorem roomless_delete (key : String) : (delete key).Roomless := by
  intro now held
  cases held <;> rfl

theorem roomless_expire (key : String) (ttl : Duration) : (expire key ttl).Roomless := by
  intro now held
  cases held <;> rfl

theorem roomless_setRemove (key : String) (member : Bytes) : (setRemove key member).Roomless := by
  intro now held
  rcases held with _ | ⟨_ | _, _⟩ <;> rfl

/-- A command that succeeds has not been short of room. -/
theorem ofCommand_of_ok {full : Bool} {reply : Reply}
    (h : (Rule.ofCommand now c held full).1 = .ok reply) :
    Rule.ofCommand now c held full = Rule.ofCommand now c held false := by
  cases full with
  | false => rfl
  | true =>
    rcases held with _ | ⟨_ | _, _⟩ <;> cases c <;> first | rfl | cases h

end Command

namespace Memory.State

variable {s : State} {c : Command} {max : Nat} {now : Instant}

/-- **A command that succeeds** leaves what it leaves, and all other keys alone. -/
theorem apply_of_ok {reply : Reply} (h : (s.apply c max now).1 = .ok reply) :
    c.Accepts now (s.live now c.key) ∧ (s.apply c max now).2.live now = c.carry now (s.live now) := by
  rw [apply_eq_follow, follow_fst] at h
  have hrule := Command.ofCommand_of_ok h
  refine ⟨⟨reply, hrule ▸ h⟩, ?_⟩
  rw [apply_eq_follow, live_follow_eq, hrule]
  funext key
  by_cases hkey : key = c.key
  · subst hkey
    rw [if_pos rfl, Command.carry_self]
    rfl
  · rw [if_neg hkey, Command.carry_of_ne hkey]

/-- A command leaves what other keys hold alone, be it carried out or not. -/
theorem live_apply_of_ne (s : State) {c : Command} {key : String} (h : key ≠ c.key) :
    (s.apply c max now).2.live now key = s.live now key := by
  rw [apply_eq_follow, live_follow_eq]
  exact if_neg h

/-- **A command that can be carried out and has room succeeds.** -/
theorem apply_of_accepts (h : c.Accepts now (s.live now c.key))
    (hroom : (s.purge c.key now).isFull c.key max = false) :
    ∃ reply, (s.apply c max now).1 = .ok reply := by
  rw [apply_eq_follow, follow_fst, hroom]
  exact h

/-- A command that can be carried out and needs no room succeeds. -/
theorem apply_of_roomless (max : Nat) (hc : c.Roomless) (h : c.Accepts now (s.live now c.key)) :
    ∃ reply, (s.apply c max now).1 = .ok reply := by
  rw [apply_eq_follow, follow_fst]
  cases (s.purge c.key now).isFull c.key max with
  | false => exact h
  | true =>
    rw [hc]
    exact h

end Memory.State

namespace Memory

/-! ## Batches -/

/-- **Commands that are carried out one after the other**: what keys hold before them, and after them. -/
inductive Carries (now : Instant) : List Command → Contents → Contents → Prop
  | nil {m : Contents} : Carries now [] m m
  | cons {c : Command} {rest : List Command} {m m' : Contents} (h : c.Accepts now (m c.key))
    (hrest : Carries now rest (c.carry now m) m') : Carries now (c :: rest) m m'

theorem Carries.unique {now : Instant} {commands : List Command} {m m₁ m₂ : Contents}
    (h₁ : Carries now commands m m₁) (h₂ : Carries now commands m m₂) : m₁ = m₂ := by
  induction h₁ with
  | nil =>
    cases h₂
    rfl
  | cons _ _ ih =>
    cases h₂ with
    | cons _ hrest => exact ih hrest

/-- Whether a batch is answered, with no error in any place. -/
def succeeds : Except Error (List Reply) → Bool
  | .ok replies => replies.all (·.asError?.isNone)
  | .error _ => false

/-- The check of a batch lets its replies through, or fails as the batch has. -/
theorem check_of_succeeds {replies : List Reply} (h : succeeds (.ok replies) = true) :
    Reply.check replies = .ok replies := by
  have hnone : replies.findSome? Reply.asError? = none := by
    refine List.findSome?_eq_none_iff.mpr fun r hr => ?_
    exact Option.isNone_iff_eq_none.mp (List.all_eq_true.mp h r hr)
  rw [Reply.check, hnone]

theorem succeeds_of_check {replies replies' : List Reply} (h : Reply.check replies = .ok replies') :
    succeeds (.ok replies) = true := by
  unfold Reply.check at h
  split at h
  · cases h
  · rename_i hnone
    refine List.all_eq_true.mpr fun r hr => ?_
    exact Option.isNone_iff_eq_none.mpr (List.findSome?_eq_none_iff.mp hnone r hr)

namespace State

variable {s : State} {c : Command} {rest : List Command} {max : Nat} {now : Instant}

/-- **A batch succeeds exactly if its first command does, and then the others do.** -/
theorem succeeds_cons_iff :
    succeeds (s.applyAll (c :: rest) max now).1 = true ↔
      (∃ reply, (s.apply c max now).1 = .ok reply) ∧
        succeeds ((s.apply c max now).2.applyAll rest max now).1 = true := by
  by_cases hcrash : ∃ reason, (s.apply c max now).1 = .error (.crash reason)
  · obtain ⟨reason, hreason⟩ := hcrash
    rw [applyAll_cons_crash s max now c rest hreason, hreason]
    constructor
    · intro h
      cases h
    · rintro ⟨⟨_, h⟩, -⟩
      cases h
  · rw [applyAll_cons s max now c rest fun reason h => hcrash ⟨reason, h⟩]
    generalize (s.apply c max now).2.applyAll rest max now = tail
    obtain ⟨answer, after⟩ := tail
    cases answer with
    | error e => exact ⟨fun h => (by cases h), And.right⟩
    | ok replies =>
      have hcons : ∀ r, succeeds (applyAll.cons r (.ok replies, after)).1 =
          (r.asError?.isNone && succeeds (.ok replies)) := fun _ => rfl
      rw [hcons, Bool.and_eq_true]
      refine and_congr_left fun _ => ?_
      cases hanswer : (s.apply c max now).1 with
      | error e =>
        constructor
        · intro h
          exact absurd (Option.isNone_iff_eq_none.mp h) (Rule.asError?_ofError e)
        · rintro ⟨_, h⟩
          cases h
      | ok reply =>
        rw [apply_eq_follow] at hanswer
        have hnone := Rule.asError?_of_ok hanswer
        exact ⟨fun _ => ⟨reply, rfl⟩, fun _ => Option.isNone_iff_eq_none.mpr hnone⟩

theorem applyAll_cons_snd (h : succeeds (s.applyAll (c :: rest) max now).1 = true) :
    (s.applyAll (c :: rest) max now).2 = ((s.apply c max now).2.applyAll rest max now).2 := by
  obtain ⟨⟨reply, hreply⟩, -⟩ := succeeds_cons_iff.mp h
  rw [applyAll_cons s max now c rest fun reason h => by rw [hreply] at h; cases h]
  exact applyAll.cons_snd _ _

/-- **A batch that succeeds has carried its commands out.** -/
theorem carries_of_succeeds {commands : List Command}
    (h : succeeds (s.applyAll commands max now).1 = true) :
    Carries now commands (s.live now) ((s.applyAll commands max now).2.live now) := by
  induction commands generalizing s with
  | nil => exact .nil
  | cons c rest ih =>
    obtain ⟨⟨reply, hreply⟩, hrest⟩ := succeeds_cons_iff.mp h
    obtain ⟨haccepts, hcarry⟩ := apply_of_ok hreply
    rw [applyAll_cons_snd h]
    exact .cons haccepts (hcarry ▸ ih hrest)

/-- A batch of commands that need no room succeeds if it can be carried out. -/
theorem succeeds_of_carries {commands : List Command} {m : Contents}
    (hroomless : ∀ c ∈ commands, c.Roomless) (h : Carries now commands (s.live now) m) :
    succeeds (s.applyAll commands max now).1 = true := by
  induction commands generalizing s with
  | nil => rfl
  | cons c rest ih =>
    obtain ⟨hc, hrest⟩ := List.forall_mem_cons.mp hroomless
    obtain _ | ⟨haccepts, hcarries⟩ := h
    obtain ⟨reply, hreply⟩ := apply_of_roomless max hc haccepts
    refine succeeds_cons_iff.mpr ⟨⟨reply, hreply⟩, ih hrest ?_⟩
    rwa [(apply_of_ok hreply).2]

end State

/-! ## Under the lock -/

variable {s : Store} {now : Instant}

theorem batch_of_sound (hsound : s.poisoned = false) (commands : List Command) :
    s.request now (.batch commands) =
      ((s.state.applyAll commands s.maxEntries now).1,
        { s with
          state := (s.state.applyAll commands s.maxEntries now).2
          poisoned := crashed (s.state.applyAll commands s.maxEntries now).1 }) :=
  Store.locked_of_sound hsound (·.applyAll commands s.maxEntries now)

/-- **A batch that succeeds** leaves the lock sound that it has found so, and has carried its commands
out. -/
theorem batch_of_succeeds {commands : List Command} (hsound : s.poisoned = false)
    (h : succeeds (s.request now (.batch commands)).1 = true) :
    (s.request now (.batch commands)).2.poisoned = false ∧
      Carries now commands (s.state.live now) ((s.request now (.batch commands)).2.state.live now) := by
  rw [batch_of_sound hsound] at h ⊢
  refine ⟨?_, State.carries_of_succeeds h⟩
  unfold succeeds at h
  split at h
  · rename_i replies hreplies
    exact congrArg crashed hreplies
  · cases h

/-- A batch of commands that need no room succeeds under a sound lock if it can be carried out. -/
theorem batch_of_carries {commands : List Command} {m : Contents} (hsound : s.poisoned = false)
    (hroomless : ∀ c ∈ commands, c.Roomless) (h : Carries now commands (s.state.live now) m) :
    succeeds (s.request now (.batch commands)).1 = true := by
  rw [batch_of_sound hsound]
  exact State.succeeds_of_carries hroomless h

/-- A read answers by what its key holds, and does no more than purge it. -/
theorem get_of_sound (hsound : s.poisoned = false) (key : String) (now : Instant) :
    s.request now (.get key) =
      ((Rule.get (s.state.live now key) false).1, { s with state := s.state.purge key now }) :=
  call_txGet_of_sound hsound ⟨[]⟩ key now

/-- A listing answers by what its key holds, and does no more than purge it. -/
theorem setMembers_of_sound (hsound : s.poisoned = false) (key : String) (now : Instant) :
    s.request now (.setMembers key) =
      ((Rule.setMembers (s.state.live now key) false).1, { s with state := s.state.purge key now }) := by
  refine (Store.locked_of_sound hsound (·.setMembers key now)).trans ?_
  obtain ⟨state, maxEntries, poisoned⟩ := s
  cases hsound
  simp only [state.setMembers_eq_follow key 0, State.follow, ← State.entries_purge_self]
  rcases (state.purge key now).entries[key]? with _ | ⟨_ | set, until_⟩ <;> rfl

/-- A clean-up takes nothing away that can be seen. -/
theorem live_cleanUp (s : Store) (now : Instant) :
    (s.perform now .cleanUp).state.live now = s.state.live now := by
  cases hp : s.poisoned with
  | true => rw [Store.perform_of_poisoned now hp]
  | false =>
    simp only [Store.perform, hp, Bool.false_eq_true, if_false]
    exact (s.state.purgeAll_purges now).live

theorem poisoned_cleanUp (s : Store) (now : Instant) :
    (s.perform now .cleanUp).poisoned = s.poisoned := by
  cases hp : s.poisoned with
  | true => rw [Store.perform_of_poisoned now hp, hp]
  | false => simp only [Store.perform, hp, Bool.false_eq_true, if_false, Store.cleanUp]

end Memory

end WatchedStore
