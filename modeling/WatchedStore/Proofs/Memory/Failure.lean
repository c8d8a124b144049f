import WatchedStore.Proofs.Memory.Watch

/-!
# Failures leave no trace

An operation purges its key before it looks at it, and only then can it fail. Nevertheless a failure
changes nothing, not even by that purge. For an operation that has purged its key finds nothing under it,
and there is room for the key, since it was stored just before and a store never holds more than it may;
then nothing is left to fail (`Rule.Clean.absent`). So an operation that fails has purged nothing, and its
rule has kept the entry.

Spans have to end where the clock has a reading (`Representable`). Otherwise an operation crashes, and that
may well be behind a purge.

**The laws** (`failure_traceless`): a call that fails leaves the store as it was; a command that fails in a
batch or a commit leaves what the commands in front of it have left; and without its failing commands a
batch or a commit does the same to the store.
-/

namespace WatchedStore

/-- Whether a command sets no deadline that the clock cannot show. -/
def Command.Representable (now : Instant) : Command → Prop
  | .set _ _ (some ttl) | .expire _ ttl => (Instant.after? now ttl).isSome = true
  | _ => True

/-- Whether a request sets no deadline that the clock cannot show. -/
def Request.Representable (now : Instant) : Request → Prop
  | .set _ _ (some ttl) | .expire _ ttl => (Instant.after? now ttl).isSome = true
  | .batch commands => ∀ c ∈ commands, c.Representable now
  | _ => True

/-- **Whether a call sets no deadline that the clock cannot show.** -/
def Call.Representable {τ : Type} (now : Instant) : Call τ → Prop
  | .request r => r.Representable now
  | .exec _ commands => ∀ c ∈ commands, c.Representable now
  | _ => True

/-- The commands of a batch that did not fail, by the replies. -/
def Command.succeeding (commands : List Command) (replies : List Reply) : List Command :=
  (commands.zip replies).filterMap fun p => if p.2.asError?.isNone then some p.1 else none

namespace Memory

/-- **A rule that fails without a trace**: it never crashes, keeps the entry if it fails, and does not fail
at a key that holds nothing and has room. -/
structure Rule.Clean (rule : Rule α) : Prop where
  calm : ∀ held full, crashed (rule held full).1 = false
  keeps : ∀ held full e, (rule held full).1 = .error e → (rule held full).2 = .keep
  absent : ∀ e, (rule none false).1 ≠ .error e

/-! ## Rules -/

namespace Rule

/-- A rule whose answers show when it touches its key keeps the entry if it fails. -/
theorem Shows.keeps {rule : Rule α} {shown : Except Error α → Prop} (h : rule.Shows shown)
    (hshown : ∀ e, ¬ shown (.error e)) {held : Option Entry} {full : Bool} {e : Error}
    (herror : (rule held full).1 = .error e) : (rule held full).2 = .keep := by
  obtain ⟨htouches, herases⟩ := h held full
  rw [herror] at htouches herases
  cases hupdate : (rule held full).2 with
  | keep => rfl
  | erase => cases (herases hupdate).1
  | _ =>
    rw [hupdate] at htouches
    exact (hshown e (htouches.mp trivial)).elim

theorem get_clean : Clean get where
  calm held full := by
    unfold get
    split <;> rfl
  keeps _ _ _ := get_shows.keeps fun _ => id
  absent _ h := by cases h

theorem contains_clean : Clean contains where
  calm _ _ := rfl
  keeps _ _ _ := contains_shows.keeps fun _ => id
  absent _ h := by cases h

theorem setMembers_clean : Clean setMembers where
  calm held full := by
    unfold setMembers
    split <;> rfl
  keeps _ _ _ := setMembers_shows.keeps fun _ => id
  absent _ h := by cases h

theorem deadline_of_representable {ttl : Option Duration} {now : Instant}
    (h : ∀ d, ttl = some d → (Instant.after? now d).isSome = true) :
    ∃ until_, State.deadline ttl now = .ok until_ := by
  unfold State.deadline
  cases ttl with
  | none => exact ⟨none, rfl⟩
  | some d =>
    obtain ⟨t, ht⟩ := Option.isSome_iff_exists.mp (h d rfl)
    exact ⟨some t, by simp only [ht]⟩

theorem set_clean (value : Bytes) {ttl : Option Duration} {now : Instant}
    (h : ∀ d, ttl = some d → (Instant.after? now d).isSome = true) : Clean (set value ttl now) := by
  obtain ⟨until_, hdeadline⟩ := deadline_of_representable h
  refine ⟨fun held full => ?_, fun _ _ _ => (set_shows value ttl now).keeps fun _ => ?_, fun e he => ?_⟩
  · unfold set
    rw [hdeadline]
    cases full <;> rfl
  · simp [Except.isOk, Except.toBool]
  · simp [set, hdeadline] at he

theorem getSet_clean (value : Bytes) : Clean (getSet value) where
  calm held full := by
    have hget := get_clean.calm held full
    unfold getSet
    cases hread : (get held full).1 with
    | error e =>
      rw [hread] at hget
      exact hget
    | ok previous => cases full <;> rfl
  keeps _ _ _ := (getSet_shows value).keeps fun _ => by simp [Except.isOk, Except.toBool]
  absent _ h := by cases h

theorem store_calm (sum? : Option Int64) (until_ : Option Instant) :
    crashed (store sum? until_).1 = false := by
  cases sum? <;> rfl

theorem sum?_zero (amount : Int64) : (Numeral.sum? 0 amount).isSome = true := by
  have hlow := Int64.le_toInt amount
  have hhigh := Int64.toInt_lt amount
  have hzero : (0 : Int64).toInt = 0 := rfl
  simp only [Numeral.sum?, hzero, Int.zero_add]
  rw [if_pos ⟨by omega, by omega⟩]
  rfl

theorem increment_clean (key : String) (amount : Int64) : Clean (increment key amount) where
  calm held full := by
    unfold increment
    cases held with
    | none =>
      cases full with
      | true => rfl
      | false => exact store_calm ..
    | some e =>
      obtain ⟨value, until_⟩ := e
      cases value with
      | members set => rfl
      | bytes b =>
        dsimp only
        cases Counter.decode key b with
        | error e => rfl
        | ok current => exact store_calm ..
  keeps _ _ _ := (increment_shows key amount).keeps fun _ => by simp [Except.isOk, Except.toBool]
  absent e h := by
    -- an amount by itself always fits
    obtain ⟨sum, hsum⟩ := Option.isSome_iff_exists.mp (sum?_zero amount)
    simp [increment, hsum, store] at h

theorem expire_clean {ttl : Duration} {now : Instant} (h : (Instant.after? now ttl).isSome = true) :
    Clean (expire ttl now) := by
  have hspan : ∀ d, some ttl = some d → (Instant.after? now d).isSome = true := by
    intro d hd
    cases hd
    exact h
  obtain ⟨until_, hdeadline⟩ := deadline_of_representable hspan
  refine ⟨fun held full => ?_, fun _ _ _ => (expire_shows ttl now).keeps fun _ h => (by cases h),
    fun _ h => by cases h⟩
  unfold expire
  rw [hdeadline]
  cases held <;> rfl

theorem delete_clean : Clean delete where
  calm held full := by cases held <;> rfl
  keeps _ _ _ := delete_shows.keeps fun _ h => by cases h
  absent _ h := by cases h

theorem setAdd_clean (member : Bytes) : Clean (setAdd member) where
  calm held full := by
    unfold setAdd
    cases held with
    | none => cases full <;> rfl
    | some e =>
      obtain ⟨value, until_⟩ := e
      cases value with
      | bytes b => rfl
      | members set =>
        dsimp only
        cases set.contains member <;> rfl
  keeps _ _ _ := (setAdd_shows member).keeps fun _ h => by cases h
  absent _ h := by cases h

theorem setRemove_clean (member : Bytes) : Clean (setRemove member) where
  calm held full := by
    unfold setRemove
    cases held with
    | none => rfl
    | some e =>
      obtain ⟨value, until_⟩ := e
      cases value with
      | bytes b => rfl
      | members set =>
        dsimp only
        cases set.contains member <;> cases (set.erase member).isEmpty <;> rfl
  keeps _ _ _ := (setRemove_shows member).keeps fun _ h => by cases h
  absent _ h := by cases h

theorem crashed_map (f : α → β) (answer : Except Error α) : crashed (answer.map f) = crashed answer := by
  cases answer with
  | error e => cases e <;> rfl
  | ok a => rfl

/-- Telling the answer another way makes no difference. -/
theorem Clean.map {rule : Rule α} (h : rule.Clean) (f : α → β) : (rule.map f).Clean where
  calm held full := (crashed_map f (rule held full).1).trans (h.calm held full)
  keeps held full e herror := by
    have hkeeps := h.keeps held full
    unfold Rule.map at herror ⊢
    cases hanswer : (rule held full).1 with
    | error e' => exact hkeeps e' hanswer
    | ok a =>
      rw [hanswer] at herror
      cases herror
  absent e herror := by
    have habsent := h.absent
    unfold Rule.map at herror
    cases hanswer : (rule none false).1 with
    | error e' => exact habsent e' hanswer
    | ok a =>
      rw [hanswer] at herror
      cases herror

theorem Decides.clean {now : Instant} {r : Request} {key : String} {rule : Rule r.Answer}
    (h : Decides now r key rule) (hrep : r.Representable now) : rule.Clean := by
  cases h with
  | get => exact get_clean
  | contains => exact contains_clean
  | setMembers => exact setMembers_clean
  | set _ value ttl =>
    refine set_clean value fun d hd => ?_
    subst hd
    exact hrep
  | getSet _ value => exact getSet_clean value
  | increment _ amount => exact increment_clean key amount
  | decrement => exact increment_clean key _
  | expire => exact expire_clean hrep
  | delete => exact delete_clean
  | setAdd _ member => exact setAdd_clean member
  | setRemove _ member => exact setRemove_clean member

theorem ofCommand_clean {now : Instant} {c : Command} (hrep : c.Representable now) :
    (ofCommand now c).Clean := by
  cases c with
  | get => exact get_clean.map _
  | set key value ttl =>
    refine (set_clean value fun d hd => ?_).map _
    subst hd
    exact hrep
  | increment key amount => exact (increment_clean key amount).map _
  | expire => exact (expire_clean hrep).map _
  | delete => exact delete_clean.map _
  | setAdd key member => exact (setAdd_clean member).map _
  | setRemove key member => exact (setRemove_clean member).map _

/-- A command that is carried out is not answered by an error. -/
theorem asError?_of_ok {now : Instant} {c : Command} {held : Option Entry} {full : Bool} {r : Reply}
    (h : (ofCommand now c held full).1 = .ok r) : r.asError? = none := by
  have hmap : ∀ {α : Type} {answer : Except Error α} {f : α → Reply},
      answer.map f = .ok r → ∃ a, f a = r := by
    intro α answer f hf
    cases answer with
    | error e => cases hf
    | ok a =>
      cases hf
      exact ⟨a, rfl⟩
  cases c with
  | get key =>
    obtain ⟨b, rfl⟩ := hmap h
    cases b <;> rfl
  | _ =>
    obtain ⟨a, rfl⟩ := hmap h
    rfl

end Rule

/-! ## Contents -/

namespace State

variable {s : State} {max : Nat} {now : Instant} {key : String}

/-- What the purge of a key makes room for is the key itself. -/
theorem room_of_overdue (hs : s.WellFormed max) (hover : s.Overdue key now) :
    (s.remove key).isFull key max = false := by
  obtain ⟨e', he', -⟩ := hover
  have hin : s.entries.contains key = true := by
    rw [Std.ExtTreeMap.contains_eq_isSome_getElem?, he']
    rfl
  have hsize : (s.remove key).entries.size = s.entries.size - 1 := by
    rw [remove, touch, erase, Std.ExtTreeMap.size_erase, if_pos hin]
  have hpos : s.entries.size ≠ 0 := fun hzero => by
    rw [Std.ExtTreeMap.eq_empty_iff_size_eq_zero.mpr hzero] at he'
    simp at he'
  have hbounded := hs.bounded
  have hlt : ¬ max ≤ (s.remove key).entries.size := by omega
  simp [isFull, hlt]

/-- **An operation that fails leaves the contents as they were.** -/
theorem follow_of_error {rule : Rule α} {e : Error} (h : rule.Clean) (hs : s.WellFormed max)
    (herror : (s.follow rule key max now).1 = .error e) : (s.follow rule key max now).2 = s := by
  by_cases hover : s.Overdue key now
  · have hnone : (s.remove key).entries[key]? = none := by rw [entries_remove, if_pos rfl]
    unfold follow at herror
    rw [purge_of_overdue hover] at herror
    dsimp only at herror
    rw [hnone, room_of_overdue hs hover] at herror
    exact absurd herror (h.absent e)
  · unfold follow at herror ⊢
    rw [purge_of_not_overdue hover] at herror ⊢
    dsimp only at herror ⊢
    rw [h.keeps _ _ e herror]
    rfl

/-! ## Batches -/

/-- A command that sets a deadline that the clock can show does not crash. -/
theorem apply_ne_crash {c : Command} (hrep : c.Representable now) (s : State) (reason : String) :
    (s.apply c max now).1 ≠ .error (.crash reason) := by
  intro h
  have hcalm : crashed (s.apply c max now).1 = false := by
    rw [apply_eq_follow]
    exact (Rule.ofCommand_clean hrep).calm _ _
  rw [h] at hcalm
  cases hcalm

/-- **A command that fails leaves the contents as they were**, and only a command that fails is answered by
an error. -/
theorem apply_of_asError? {c : Command} (hrep : c.Representable now) (hs : s.WellFormed max)
    (h : (Reply.ofAnswer (s.apply c max now).1).asError? ≠ none) : (s.apply c max now).2 = s := by
  rw [apply_eq_follow] at h ⊢
  cases hanswer : (s.follow (Rule.ofCommand now c) c.key max now).1 with
  | error e => exact follow_of_error (Rule.ofCommand_clean hrep) hs hanswer
  | ok r =>
    rw [hanswer] at h
    exact absurd (Rule.asError?_of_ok hanswer) h

/-- A batch is answered, and that is known of its first command and the others behind it. -/
theorem applyAll_cons_of_representable {c : Command} (hrep : c.Representable now)
    (rest : List Command) (s : State) :
    s.applyAll (c :: rest) max now =
      (((s.apply c max now).2.applyAll rest max now).1.map (.ofAnswer (s.apply c max now).1 :: ·),
        ((s.apply c max now).2.applyAll rest max now).2) := by
  rw [applyAll_cons s max now c rest (apply_ne_crash hrep s)]
  generalize (s.apply c max now).2.applyAll rest max now = tail
  obtain ⟨answer, after⟩ := tail
  cases answer <;> rfl

theorem applyAll_ok_of_representable {commands : List Command}
    (hrep : ∀ c ∈ commands, c.Representable now) (s : State) (max : Nat) :
    ∃ replies, (s.applyAll commands max now).1 = .ok replies := by
  induction commands generalizing s with
  | nil => exact ⟨[], rfl⟩
  | cons c rest ih =>
    obtain ⟨hc, hrest⟩ := List.forall_mem_cons.mp hrep
    obtain ⟨replies, hreplies⟩ := ih hrest (s.apply c max now).2
    rw [applyAll_cons_of_representable hc, hreplies]
    exact ⟨_, rfl⟩

theorem applyAll_cons_inv {c : Command} {rest : List Command} {replies : List Reply}
    (hrep : c.Representable now) (h : (s.applyAll (c :: rest) max now).1 = .ok replies) :
    ∃ tail, replies = .ofAnswer (s.apply c max now).1 :: tail ∧
      ((s.apply c max now).2.applyAll rest max now).1 = .ok tail := by
  rw [applyAll_cons_of_representable hrep] at h
  cases htail : ((s.apply c max now).2.applyAll rest max now).1 with
  | error e =>
    rw [htail] at h
    cases h
  | ok tail =>
    rw [htail] at h
    cases h
    exact ⟨tail, rfl, rfl⟩

/-- **A command that fails in a batch** leaves what the commands in front of it have left. -/
theorem applyAll_slot {commands : List Command} {replies : List Reply} {i : Nat} {reply : Reply}
    (hrep : ∀ c ∈ commands, c.Representable now) (hs : s.WellFormed max)
    (h : (s.applyAll commands max now).1 = .ok replies) (hi : replies[i]? = some reply)
    (herror : reply.asError? ≠ none) :
    (s.applyAll (commands.take (i + 1)) max now).2 = (s.applyAll (commands.take i) max now).2 := by
  induction commands generalizing s replies i with
  | nil =>
    cases h
    cases hi
  | cons c rest ih =>
    obtain ⟨hc, hrest⟩ := List.forall_mem_cons.mp hrep
    obtain ⟨tail, rfl, htail⟩ := applyAll_cons_inv hc h
    rw [List.take_succ_cons, applyAll_cons_of_representable hc]
    cases i with
    | zero =>
      cases hi
      exact apply_of_asError? hc hs herror
    | succ i =>
      rw [List.take_succ_cons, applyAll_cons_of_representable hc]
      exact ih hrest (hs.apply c now) htail hi

/-- **A batch without its failing commands** gives the other replies and leaves the same contents. -/
theorem applyAll_succeeding {commands : List Command} {replies : List Reply}
    (hrep : ∀ c ∈ commands, c.Representable now) (hs : s.WellFormed max)
    (h : (s.applyAll commands max now).1 = .ok replies) :
    s.applyAll (Command.succeeding commands replies) max now =
      (.ok (replies.filter fun r => r.asError?.isNone), (s.applyAll commands max now).2) := by
  induction commands generalizing s replies with
  | nil =>
    cases h
    rfl
  | cons c rest ih =>
    obtain ⟨hc, hrest⟩ := List.forall_mem_cons.mp hrep
    obtain ⟨tail, rfl, htail⟩ := applyAll_cons_inv hc h
    have hleft := ih hrest (hs.apply c now) htail
    rw [applyAll_cons_of_representable hc]
    by_cases herror : (Reply.ofAnswer (s.apply c max now).1).asError? = none
    · have hkept : Command.succeeding (c :: rest) (.ofAnswer (s.apply c max now).1 :: tail) =
          c :: Command.succeeding rest tail := by simp [Command.succeeding, herror]
      rw [hkept, applyAll_cons_of_representable hc, hleft]
      simp [Except.map, herror]
    · have hdropped : Command.succeeding (c :: rest) (.ofAnswer (s.apply c max now).1 :: tail) =
          Command.succeeding rest tail := by simp [Command.succeeding, herror]
      rw [apply_of_asError? hc hs herror] at hleft ⊢
      rw [hdropped, hleft]
      simp [herror]

end State

theorem mem_of_mem_succeeding {commands : List Command} {replies : List Reply} {c : Command}
    (h : c ∈ Command.succeeding commands replies) : c ∈ commands := by
  obtain ⟨⟨c', r⟩, hmem, hkept⟩ := List.mem_filterMap.mp h
  simp only [Option.ite_none_right_eq_some, Option.some.injEq] at hkept
  exact hkept.2 ▸ (List.of_mem_zip hmem).1

/-! ## Stores -/

/-- **Commands that leave no trace where they fail**, by the replies and by the store that any queue of
commands leaves behind. -/
structure TracelessFailures (run : List Command → Store) (commands : List Command)
    (replies : List Reply) : Prop where
  slot : ∀ i reply, replies[i]? = some reply → reply.asError? ≠ none →
    run (commands.take (i + 1)) = run (commands.take i)
  leftOut : run (Command.succeeding commands replies) = run commands

variable {s : Store} {now : Instant} {commands : List Command} {replies : List Reply}

/-- What is known of batches on some contents holds of any run of queues that comes down to it. -/
theorem tracelessFailures_of_applyAll {run : List Command → Store} {contents : State}
    (hwf : contents.WellFormed s.maxEntries)
    (hrun : ∀ queue, (∀ c ∈ queue, c.Representable now) →
      run queue = { s with state := (contents.applyAll queue s.maxEntries now).2 })
    (hrep : ∀ c ∈ commands, c.Representable now)
    (h : (contents.applyAll commands s.maxEntries now).1 = .ok replies) :
    TracelessFailures run commands replies where
  slot i reply hi herror := by
    have htake : ∀ n, ∀ c ∈ commands.take n, c.Representable now :=
      fun n c hc => hrep c (List.mem_of_mem_take hc)
    rw [hrun _ (htake _), hrun _ (htake _), State.applyAll_slot hrep hwf h hi herror]
  leftOut := by
    rw [hrun _ fun c hc => hrep c (mem_of_mem_succeeding hc), hrun _ hrep,
      State.applyAll_succeeding hrep hwf h]

theorem locked_of_error {f : State → Except Error α × State} {e : Error}
    (hf : ∀ e, (f s.state).1 = .error e → (f s.state).2 = s.state ∧ crashed (f s.state).1 = false)
    (h : (s.locked f).1 = .error e) : (s.locked f).2 = s := by
  cases hp : s.poisoned with
  | true => rw [Store.locked_of_poisoned hp]
  | false =>
    rw [Store.locked_of_sound hp] at h ⊢
    obtain ⟨hstate, hcalm⟩ := hf e h
    obtain ⟨state, maxEntries, poisoned⟩ := s
    cases hp
    simp only [hstate, hcalm]

theorem locked_follow_of_error {rule : Rule α} {key : String} {e : Error} (hrule : rule.Clean)
    (hs : s.WellFormed)
    (h : (s.locked fun state => state.follow rule key s.maxEntries now).1 = .error e) :
    (s.locked fun state => state.follow rule key s.maxEntries now).2 = s :=
  locked_of_error (fun _ he => ⟨State.follow_of_error hrule hs he, hrule.calm _ _⟩) h

/-- A commit of commands whose deadlines the clock can show is answered. -/
theorem exec_ok_of_representable (hrep : ∀ c ∈ commands, c.Representable now) (state : State)
    (watched : List (String × Nat)) (max : Nat) :
    ∃ answer, (state.exec watched commands max now).1 = .ok answer := by
  rw [State.exec_eq]
  split
  · obtain ⟨replies, hreplies⟩ :=
      State.applyAll_ok_of_representable hrep (state.unchanged watched now).2 max
    rw [hreplies]
    exact ⟨some replies, rfl⟩
  · exact ⟨none, rfl⟩

/-- **A call that fails leaves a store as it was.** -/
theorem call_of_error {c : Call Transaction} {e : Error} (hs : s.WellFormed)
    (hrep : c.Representable now) (h : (s.call now c).1 = .error e) : (s.call now c).2 = s := by
  cases c with
  | request r =>
    rcases Rule.ruled_or_refused_or_batch now r with ⟨key, rule, hrule⟩ | hrefused | ⟨commands, rfl⟩
    · simp only [Store.call, Store.request_eq_follow hrule] at h ⊢
      exact locked_follow_of_error (hrule.clean hrep) hs h
    · simp only [Store.call, hrefused]
    · refine locked_of_error (fun e he => ?_) h
      obtain ⟨replies, hreplies⟩ := State.applyAll_ok_of_representable hrep s.state s.maxEntries
      rw [hreplies] at he
      cases he
  | watch keys => exact locked_of_error (fun _ he => by cases he) h
  | txGet tx key =>
    rw [Store.txGet_eq_follow] at h ⊢
    exact locked_follow_of_error Rule.get_clean hs h
  | exec tx commands =>
    refine locked_of_error (fun e he => ?_) h
    obtain ⟨answer, hanswer⟩ := exec_ok_of_representable hrep s.state tx.watched s.maxEntries
    rw [hanswer] at he
    cases he
  | discard tx => cases h

theorem request_batch_of_sound (h : s.poisoned = false) (hrep : ∀ c ∈ commands, c.Representable now) :
    s.request now (.batch commands) =
      ((s.state.applyAll commands s.maxEntries now).1,
        { s with state := (s.state.applyAll commands s.maxEntries now).2 }) := by
  refine (Store.locked_of_sound h (·.applyAll commands s.maxEntries now)).trans ?_
  obtain ⟨replies, hreplies⟩ := State.applyAll_ok_of_representable hrep s.state s.maxEntries
  obtain ⟨state, maxEntries, poisoned⟩ := s
  cases h
  simp only [hreplies, crashed]

theorem batch_traceless (hs : s.WellFormed) (hrep : ∀ c ∈ commands, c.Representable now)
    (h : (s.request now (.batch commands)).1 = .ok replies) :
    TracelessFailures (fun queue => (s.request now (.batch queue)).2) commands replies := by
  cases hp : s.poisoned with
  | true =>
    rw [show s.request now (.batch commands) = _ from Store.locked_of_poisoned hp _] at h
    cases h
  | false =>
    rw [request_batch_of_sound hp hrep] at h
    exact tracelessFailures_of_applyAll hs
      (fun queue hqueue => congrArg Prod.snd (request_batch_of_sound hp hqueue)) hrep h

/-- A commit that passes its check is the batch behind it. -/
theorem call_exec_of_passes {tx : Transaction} (h : s.poisoned = false) (hpass : Passes tx now s)
    (hrep : ∀ c ∈ commands, c.Representable now) :
    s.call now (.exec tx commands) =
      (((s.state.unchanged tx.watched now).2.applyAll commands s.maxEntries now).1.map some,
        { s with
          state := ((s.state.unchanged tx.watched now).2.applyAll commands s.maxEntries now).2 }) := by
  obtain ⟨replies, hreplies⟩ := State.applyAll_ok_of_representable hrep
    (s.state.unchanged tx.watched now).2 s.maxEntries
  have hexec := s.state.exec_eq s.maxEntries now tx.watched commands
  rw [if_pos (show (s.state.unchanged tx.watched now).1 = true from hpass)] at hexec
  rw [call_exec_of_sound h, hexec, hreplies]
  obtain ⟨state, maxEntries, poisoned⟩ := s
  cases h
  rfl

theorem exec_traceless {tx : Transaction} (hs : s.WellFormed)
    (hrep : ∀ c ∈ commands, c.Representable now)
    (h : (s.call now (.exec tx commands)).1 = .ok (some replies)) :
    TracelessFailures (fun queue => (s.call now (.exec tx queue)).2) commands replies := by
  have hsound : s.poisoned = false := by
    refine Bool.eq_false_iff.mpr fun hp => ?_
    rw [call_exec_of_poisoned hp] at h
    cases h
  have hpass : Passes tx now s := Classical.not_not.mp fun hnot => by
    rw [(call_exec_eq_none_iff s tx commands now).mpr ⟨hsound, hnot⟩] at h
    cases h
  have hchecked : (s.state.unchanged tx.watched now).2.WellFormed s.maxEntries :=
    State.WellFormed.purges hs (s.state.unchanged_purges now tx.watched)
  rw [call_exec_of_passes hsound hpass hrep] at h
  refine tracelessFailures_of_applyAll hchecked
    (fun queue hqueue => congrArg Prod.snd (call_exec_of_passes hsound hpass hqueue)) hrep ?_
  cases hanswer : ((s.state.unchanged tx.watched now).2.applyAll commands s.maxEntries now).1 with
  | error e =>
    rw [hanswer] at h
    cases h
  | ok replies' =>
    rw [hanswer] at h
    cases h
    rfl

/-- **A failure changes nothing at all.** Let a store be reachable, with any capacity, and let the clock
read anything. A call that sets no deadline that the clock cannot show, and that fails, leaves entries,
versions and their clock exactly as they were, so it has not even purged an entry. The same holds of every
command that fails in a batch or in a commit that was carried out; and the batch or commit without the
commands that fail leaves the same store. -/
theorem failure_traceless {t : Instant} (hs : Reachable t s) (now : Instant) :
    (∀ (c : Call Transaction) (e : Error), c.Representable now → (s.call now c).1 = .error e →
      (s.call now c).2 = s) ∧
    (∀ (commands : List Command) (replies : List Reply), (∀ c ∈ commands, c.Representable now) →
      (s.request now (.batch commands)).1 = .ok replies →
      TracelessFailures (fun queue => (s.request now (.batch queue)).2) commands replies) ∧
    (∀ (tx : Transaction) (commands : List Command) (replies : List Reply),
      (∀ c ∈ commands, c.Representable now) →
      (s.call now (.exec tx commands)).1 = .ok (some replies) →
      TracelessFailures (fun queue => (s.call now (.exec tx queue)).2) commands replies) :=
  ⟨fun _ _ hrep h => call_of_error hs.wellFormed hrep h,
    fun _ _ hrep h => batch_traceless hs.wellFormed hrep h,
    fun _ _ _ hrep h => exec_traceless hs.wellFormed hrep h⟩

/-- A full store refuses a new key, although the time of the only key in it is over, and leaves that key
where it is. In a batch the refusal stands between an addition to a text and a write that succeeds. -/
theorem failure_traceless_full :
    let s := ({ maxEntries := 1 } : Store).perform 1
      (.call (.request (.set "a" [0x78] (some (.ofMillis 1)))))
    let commands : List Command := [.increment "a" 1, .set "b" [] none, .set "a" [0x79] none]
    (s.call 2000000 (.request (.setAdd "b" [0x31]))).2 = s ∧
      (s.request 2 (.batch [.set "a" [0x79] none])).2 = (s.request 2 (.batch commands)).2 := by
  intro s commands
  have hreach : Reachable 1 s := ⟨1, (Reaches.refl.wait (by decide)).deed _⟩
  refine ⟨(failure_traceless hreach 2000000).1 _ .capacityExceeded trivial rfl, ?_⟩
  have hrep : ∀ c ∈ commands, c.Representable 2 := by simp [commands, Command.Representable]
  exact ((failure_traceless hreach 2).2.1 commands _ hrep rfl).leftOut

end Memory

end WatchedStore
