import WatchedStore.Proofs.Memory.Failure
import WatchedStore.Proofs.Memory.Live

/-!
# Commands, issued one by one

Every command that can be queued stands for a direct operation (`Command.request`). The two go different
ways: a direct operation takes the lock for itself, fails by its error, and a direct read spares the
contents as long as nothing is overdue; in a batch all commands run under one lock, every read purges its
key, and a result or a failure is told by a reply.

**The law** (`batch_eq_issue`): at one reading of the clock that makes no difference. A batch, and a commit
that is carried out, tell what the direct operations answer, one reply for each in their order, and leave
what these leave; and the check of the replies fails exactly as the first of the operations that failed.

The step (`Store.apply_eq_told`) rests on the rules: a command follows the rule of its direct operation,
told by a reply (`Rule.decides_command`). What the check needs besides is that rules fail with nothing but
rejections and crashes (`Rule.Decides.rejects`), for a reply keeps the cause of a rejection and no other.
-/

namespace WatchedStore

/-- **The direct operation that a command stands for.** -/
def Command.request : Command → Request
  | .get key => .get key
  | .set key value ttl => .set key value ttl
  | .increment key amount => .increment key amount
  | .expire key ttl => .expire key ttl
  | .delete key => .delete key
  | .setAdd key member => .setAdd key member
  | .setRemove key member => .setRemove key member

/-- **How the answer of the direct operation is told as a reply**: nothing and bytes as they are, a write by
"OK", and a truth value by one or zero. -/
def Command.told : (c : Command) → c.request.Answer → Reply
  | .get _, none => .nil
  | .get _, some bytes => .data bytes
  | .set .., () => .status "OK"
  | .increment .., sum => .integer sum
  | .expire .., true | .delete _, true | .setAdd .., true | .setRemove .., true => .integer 1
  | .expire .., false | .delete _, false | .setAdd .., false | .setRemove .., false => .integer 0

/-- A command that was issued as its direct operation, and the answer. -/
structure Issued where
  command : Command
  answer : Except Error command.request.Answer

namespace Issued

/-- The answer told as a reply, be it an error. -/
def reply (i : Issued) : Reply :=
  match i.answer with
  | .ok a => i.command.told a
  | .error e => .ofError e

/-- The error, if the operation failed. -/
def error? (i : Issued) : Option Error :=
  match i.answer with
  | .ok _ => none
  | .error e => some e

/-- The first failure among operations that were issued, or the replies that tell what they answered. -/
def check (issued : List Issued) : Except Error (List Reply) :=
  match issued.findSome? error? with
  | some e => .error e
  | none => .ok (issued.map reply)

end Issued

namespace Memory

/-- **Issues commands one after the other**, each as its direct operation, and all at one reading of the
clock. -/
def Store.issue (now : Instant) : Store → List Command → List Issued × Store
  | s, [] => ([], s)
  | s, c :: rest =>
    let (answer, s) := s.request now c.request
    let (issued, s) := s.issue now rest
    (⟨c, answer⟩ :: issued, s)

variable {now : Instant} {c : Command} {commands : List Command} {s : Store}

/-! ## Rules -/

namespace Rule

/-- **A command follows the rule of its direct operation**, told by a reply. -/
theorem decides_command (now : Instant) (c : Command) :
    ∃ rule, Decides now c.request c.key rule ∧ ofCommand now c = rule.map c.told := by
  have hbool : ∀ told : Bool → Reply, told true = .integer 1 → told false = .integer 0 →
      ∀ rule : Rule Bool, rule.map .ofBool = rule.map told := by
    intro told hyes hno rule
    refine congrArg rule.map (funext fun yes => ?_)
    cases yes
    · exact hno.symm
    · exact hyes.symm
  cases c with
  | get key =>
    refine ⟨_, .get key, congrArg (map · get) (funext fun bytes => ?_)⟩
    cases bytes <;> rfl
  | set key value ttl => exact ⟨_, .set key value ttl, rfl⟩
  | increment key amount => exact ⟨_, .increment key amount, rfl⟩
  | expire key ttl => exact ⟨_, .expire key ttl, hbool _ rfl rfl _⟩
  | delete key => exact ⟨_, .delete key, hbool _ rfl rfl _⟩
  | setAdd key member => exact ⟨_, .setAdd key member, hbool _ rfl rfl _⟩
  | setRemove key member => exact ⟨_, .setRemove key member, hbool _ rfl rfl _⟩

/-- **A rule that fails with rejections**, or with a deadline that the clock cannot show. -/
def Rejects (rule : Rule α) : Prop :=
  ∀ held full e, (rule held full).1 = .error e →
    (∃ reason, e = .command reason) ∨ e = State.deadlineOverflow

theorem deadline_error {ttl : Option Duration} {e : Error} (h : State.deadline ttl now = .error e) :
    e = State.deadlineOverflow := by
  unfold State.deadline at h
  cases ttl with
  | none => cases h
  | some d =>
    dsimp only at h
    split at h <;> cases h
    rfl

theorem get_rejects : Rejects get := by
  intro held full e h
  unfold get at h
  split at h <;> cases h
  exact .inl ⟨_, rfl⟩

theorem set_rejects (value : Bytes) (ttl : Option Duration) (now : Instant) :
    Rejects (set value ttl now) := by
  intro held full e h
  unfold set at h
  split at h
  · cases h
    exact .inl ⟨_, rfl⟩
  · split at h
    · cases h
    · rename_i hdeadline
      cases h
      exact .inr (deadline_error hdeadline)

theorem getSet_rejects (value : Bytes) : Rejects (getSet value) := by
  intro held full e h
  unfold getSet at h
  split at h
  · rename_i hget
    cases h
    exact get_rejects held full e hget
  · split at h <;> cases h
    exact .inl ⟨_, rfl⟩

theorem store_error {sum? : Option Int64} {until_ : Option Instant} {e : Error}
    (h : (store sum? until_).1 = .error e) : e = .overflow := by
  cases sum? <;> cases h
  rfl

theorem increment_rejects (key : String) (amount : Int64) : Rejects (increment key amount) := by
  intro held full e h
  unfold increment at h
  split at h
  · split at h
    · exact .inl ⟨_, store_error h⟩
    · cases h
      exact .inl ⟨_, rfl⟩
  · cases h
    exact .inl ⟨_, rfl⟩
  · split at h
    · cases h
      exact .inl ⟨_, rfl⟩
    · exact .inl ⟨_, store_error h⟩

theorem expire_rejects (ttl : Duration) (now : Instant) : Rejects (expire ttl now) := by
  intro held full e h
  unfold expire at h
  split at h
  · split at h
    · cases h
    · rename_i hdeadline
      cases h
      exact .inr (deadline_error hdeadline)
  · cases h

theorem contains_rejects : Rejects contains := by
  intro held full e h
  cases h

theorem delete_rejects : Rejects delete := by
  intro held full e h
  unfold delete at h
  split at h <;> cases h

theorem setAdd_rejects (member : Bytes) : Rejects (setAdd member) := by
  intro held full e h
  unfold setAdd at h
  split at h
  · split at h <;> cases h
  · cases h
    exact .inl ⟨_, rfl⟩
  · split at h <;> cases h
    exact .inl ⟨_, rfl⟩

theorem setRemove_rejects (member : Bytes) : Rejects (setRemove member) := by
  intro held full e h
  unfold setRemove at h
  split at h
  · split at h <;> split at h <;> cases h
  · cases h
    exact .inl ⟨_, rfl⟩
  · cases h

theorem setMembers_rejects : Rejects setMembers := by
  intro held full e h
  unfold setMembers at h
  split at h <;> cases h
  exact .inl ⟨_, rfl⟩

/-- **Direct operations fail with rejections**, and with deadlines that the clock cannot show. -/
theorem Decides.rejects {r : Request} {key : String} {rule : Rule r.Answer}
    (h : Decides now r key rule) : rule.Rejects := by
  cases h with
  | get => exact get_rejects
  | set _ value ttl => exact set_rejects value ttl now
  | getSet _ value => exact getSet_rejects value
  | increment _ amount => exact increment_rejects key amount
  | decrement => exact increment_rejects key _
  | expire _ ttl => exact expire_rejects ttl now
  | contains => exact contains_rejects
  | delete => exact delete_rejects
  | setAdd _ member => exact setAdd_rejects member
  | setRemove _ member => exact setRemove_rejects member
  | setMembers => exact setMembers_rejects

end Rule

/-! ## One command -/

/-- A command and its direct operation set the same deadline. -/
theorem representable_request (h : c.Representable now) : c.request.Representable now := by
  cases c with
  | set key value ttl => cases ttl <;> exact h
  | expire => exact h
  | _ => trivial

/-- **One command in a batch** answers and leaves what its direct operation does, if the lock is sound. -/
theorem Store.apply_eq_told (hsound : s.poisoned = false) (hrep : c.Representable now) :
    s.state.apply c s.maxEntries now =
        ((s.request now c.request).1.map c.told, (s.request now c.request).2.state) ∧
      (s.request now c.request).2 = { s with state := (s.request now c.request).2.state } := by
  obtain ⟨rule, hrule, htold⟩ := Rule.decides_command now c
  have hcalm := (hrule.clean (representable_request hrep)).calm
  rw [State.apply_eq_follow, htold, request_eq_follow hrule, locked_of_sound hsound]
  refine ⟨rfl, ?_⟩
  obtain ⟨state, maxEntries, poisoned⟩ := s
  cases hsound
  simp only [State.follow, hcalm]

/-- Under a sound lock an operation whose deadline the clock can show fails with a rejection. -/
theorem Store.command_of_error {e : Error} (hsound : s.poisoned = false) (hrep : c.Representable now)
    (h : (s.request now c.request).1 = .error e) : ∃ reason, e = .command reason := by
  obtain ⟨rule, hrule, -⟩ := Rule.decides_command now c
  have hcalm := (hrule.clean (representable_request hrep)).calm
    (s.state.live now c.key) ((s.state.purge c.key now).isFull c.key s.maxEntries)
  rw [request_fst_of_sound hsound hrule] at h
  refine (hrule.rejects _ _ e h).resolve_right fun hcrash => ?_
  rw [h, hcrash] at hcalm
  cases hcalm

/-! ## All commands -/

theorem map_command_issue (now : Instant) (s : Store) (commands : List Command) :
    (s.issue now commands).1.map Issued.command = commands := by
  induction commands generalizing s with
  | nil => rfl
  | cons c rest ih => exact congrArg (c :: ·) (ih _)

/-- **A batch under a sound lock** tells the answers of the direct operations, and leaves what they
leave. -/
theorem applyAll_eq_issue (hsound : s.poisoned = false) (hrep : ∀ c ∈ commands, c.Representable now) :
    s.state.applyAll commands s.maxEntries now =
        (.ok ((s.issue now commands).1.map Issued.reply), (s.issue now commands).2.state) ∧
      (s.issue now commands).2 = { s with state := (s.issue now commands).2.state } := by
  induction commands generalizing s with
  | nil => exact ⟨rfl, rfl⟩
  | cons c rest ih =>
    obtain ⟨hc, hrest⟩ := List.forall_mem_cons.mp hrep
    obtain ⟨happly, hkept⟩ := Store.apply_eq_told hsound hc
    obtain ⟨s', hs'⟩ : ∃ s', s' = (s.request now c.request).2 := ⟨_, rfl⟩
    rw [← hs'] at happly hkept
    have hsound' : s'.poisoned = false := by rw [hkept]; exact hsound
    have hmax : s'.maxEntries = s.maxEntries := by rw [hkept]
    obtain ⟨htail, hleft⟩ := ih hsound' hrest
    have hissue : s.issue now (c :: rest) =
        (⟨c, (s.request now c.request).1⟩ :: (s'.issue now rest).1, (s'.issue now rest).2) := by
      rw [hs']
      rfl
    rw [hissue, State.applyAll_cons_of_representable hc, happly]
    dsimp only
    rw [← hmax, htail]
    refine ⟨?_, by rw [hleft, hkept]⟩
    -- what the first command answers is told in the same way by both
    have htold : Reply.ofAnswer ((s.request now c.request).1.map c.told) =
        Issued.reply ⟨c, (s.request now c.request).1⟩ := by
      unfold Issued.reply
      cases (s.request now c.request).1 <;> rfl
    rw [htold]
    rfl

theorem command_of_issue (hsound : s.poisoned = false) (hrep : ∀ c ∈ commands, c.Representable now) :
    ∀ i ∈ (s.issue now commands).1, ∀ e, i.answer = .error e → ∃ reason, e = .command reason := by
  induction commands generalizing s with
  | nil => exact fun _ hi => absurd hi List.not_mem_nil
  | cons c rest ih =>
    obtain ⟨hc, hrest⟩ := List.forall_mem_cons.mp hrep
    have hsound' : (s.request now c.request).2.poisoned = false := by
      rw [(Store.apply_eq_told hsound hc).2]
      exact hsound
    exact List.forall_mem_cons.mpr
      ⟨fun e he => Store.command_of_error hsound hc he, ih hsound' hrest⟩

/-- Under a poisoned lock every operation fails, and nothing happens. -/
theorem issue_of_poisoned (h : s.poisoned = true) (now : Instant) (commands : List Command) :
    (s.issue now commands).2 = s ∧
      ∀ i ∈ (s.issue now commands).1, i.answer = .error Store.lockPoisoned := by
  induction commands with
  | nil => exact ⟨rfl, fun _ hi => absurd hi List.not_mem_nil⟩
  | cons c rest ih =>
    obtain ⟨rule, hrule, -⟩ := Rule.decides_command now c
    simp only [Store.issue, request_of_poisoned h hrule]
    exact ⟨ih.1, List.forall_mem_cons.mpr ⟨rfl, ih.2⟩⟩

/-! ## The check of the replies -/

theorem asError?_told (a : c.request.Answer) : (c.told a).asError? = none := by
  cases c with
  | get =>
    rcases a with _ | _ <;> rfl
  | set => rfl
  | increment => rfl
  | _ =>
    rcases a with _ | _ <;> rfl

/-- **The check of the replies fails as the first operation that failed**, where operations fail with
rejections. -/
theorem check_map_reply {issued : List Issued}
    (h : ∀ i ∈ issued, ∀ e, i.answer = .error e → ∃ reason, e = .command reason) :
    Reply.check (issued.map Issued.reply) = Issued.check issued := by
  have hfirst : ((issued.map Issued.reply).findSome? Reply.asError?).map Error.command =
      issued.findSome? Issued.error? := by
    induction issued with
    | nil => rfl
    | cons i rest ih =>
      obtain ⟨hi, hrest⟩ := List.forall_mem_cons.mp h
      rw [List.map_cons, List.findSome?_cons, List.findSome?_cons]
      obtain ⟨c, answer⟩ := i
      cases answer with
      | ok a =>
        rw [show Issued.reply ⟨c, .ok a⟩ = c.told a from rfl, asError?_told]
        exact ih hrest
      | error e =>
        obtain ⟨reason, rfl⟩ := hi e rfl
        rfl
  unfold Reply.check Issued.check
  rw [← hfirst]
  cases (issued.map Issued.reply).findSome? Reply.asError? <;> rfl

/-! ## Batches and commits -/

theorem batch_eq_of_sound (hsound : s.poisoned = false) (hrep : ∀ c ∈ commands, c.Representable now) :
    s.request now (.batch commands) =
      (.ok ((s.issue now commands).1.map Issued.reply), (s.issue now commands).2) := by
  obtain ⟨hall, hleft⟩ := applyAll_eq_issue hsound hrep
  rw [request_batch_of_sound hsound hrep, hall, ← hleft]
  rfl

/-- **A commit that is carried out** tells the answers of the direct operations, too: its check has left the
contents as they were. -/
theorem exec_eq_of_replies {t : Instant} {s₀ : Store} {keys : List String} {tx : Transaction}
    {replies : List Reply} (hs₀ : Reachable t s₀) (hopen : (s₀.call t (.watch keys)).1 = .ok tx)
    (hr : Reaches t (s₀.call t (.watch keys)).2 now s) (hrep : ∀ c ∈ commands, c.Representable now)
    (h : (s.call now (.exec tx commands)).1 = .ok (some replies)) :
    s.call now (.exec tx commands) =
      (.ok (some ((s.issue now commands).1.map Issued.reply)), (s.issue now commands).2) := by
  have hsound : s.poisoned = false := by
    refine Bool.eq_false_iff.mpr fun hp => ?_
    rw [call_exec_of_poisoned hp] at h
    cases h
  have hpass : Passes tx now s := by
    refine Classical.not_not.mp fun hnot => ?_
    rw [(call_exec_eq_none_iff s tx commands now).mpr ⟨hsound, hnot⟩] at h
    cases h
  obtain ⟨hall, hleft⟩ := applyAll_eq_issue hsound hrep
  rw [call_exec_of_passes hsound hpass hrep,
    (watches_of_call hs₀.wellFormed hopen).unchanged_of_passes hr hpass, hall, ← hleft]
  rfl

/-- **A batch is its direct operations, one after the other.** Let a store be any, and let commands set no
deadline that the clock cannot show. At one reading of the clock they are issued, each as its direct
operation.

Under a sound lock the batch of the commands gives one reply for each, which tells what the direct operation
answered, and leaves what the direct operations leave. They fail with nothing but rejections, and the check
of the replies lets them through or fails as the first operation that failed. A commit of these commands
that is carried out gives the same replies and leaves the same store. Under a poisoned lock the batch and all
direct operations fail in the same way, and nothing happens. -/
theorem batch_eq_issue (s : Store) (now : Instant) {commands : List Command}
    (hrep : ∀ c ∈ commands, c.Representable now) :
    let issued := (s.issue now commands).1
    let left := (s.issue now commands).2
    issued.map Issued.command = commands ∧
    (s.poisoned = false →
      s.request now (.batch commands) = (.ok (issued.map Issued.reply), left) ∧
      (∀ i ∈ issued, ∀ e, i.answer = .error e → ∃ reason, e = .command reason) ∧
      Reply.check (issued.map Issued.reply) = Issued.check issued) ∧
    (∀ (t : Instant) (s₀ : Store) (keys : List String) (tx : Transaction) (replies : List Reply),
      Reachable t s₀ → (s₀.call t (.watch keys)).1 = .ok tx →
      Reaches t (s₀.call t (.watch keys)).2 now s →
      (s.call now (.exec tx commands)).1 = .ok (some replies) →
      s.call now (.exec tx commands) = (.ok (some (issued.map Issued.reply)), left)) ∧
    (s.poisoned = true →
      s.request now (.batch commands) = (.error Store.lockPoisoned, s) ∧ left = s ∧
      ∀ i ∈ issued, i.answer = .error Store.lockPoisoned) := by
  refine ⟨map_command_issue now s commands, fun hsound => ?_, ?_, fun hp => ?_⟩
  · have hcommand := command_of_issue hsound hrep
    exact ⟨batch_eq_of_sound hsound hrep, hcommand, check_map_reply hcommand⟩
  · exact fun _ _ _ _ _ hs₀ hopen hr h => exec_eq_of_replies hs₀ hopen hr hrep h
  · exact ⟨Store.locked_of_poisoned hp _, issue_of_poisoned hp now commands⟩

/-- One key is overdue, another one holds a set, and there is room for one key more. The first failure is
that of the addition to the set, although a new key is refused behind it and a later read succeeds. -/
theorem batch_eq_issue_first_failure :
    let s := (({ maxEntries := 2 } : Store).perform 0
      (.call (.request (.set "a" [0x78] (some (.ofMillis 1)))))).perform 0
      (.call (.request (.setAdd "b" [0x79])))
    let commands : List Command :=
      [.get "a", .increment "b" 1, .set "c" [0x7a] none, .set "a" [] none, .get "c"]
    s.request 1000000 (.batch commands) =
        (.ok ((s.issue 1000000 commands).1.map Issued.reply), (s.issue 1000000 commands).2) ∧
      Reply.check ((s.issue 1000000 commands).1.map Issued.reply) = .error .wrongType := by
  intro s commands
  have hrep : ∀ c ∈ commands, c.Representable 1000000 := by simp [commands, Command.Representable]
  obtain ⟨-, hsound, -⟩ := batch_eq_issue s 1000000 hrep
  obtain ⟨hbatch, -, hcheck⟩ := hsound rfl
  exact ⟨hbatch, hcheck.trans rfl⟩

end Memory

end WatchedStore
