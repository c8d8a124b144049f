import WatchedStore.Proofs.Clients.Undisturbed
import WatchedStore.Proofs.Counter.Errand
import WatchedStore.Proofs.Counter.Swap

/-!
# What a failure leaves behind

A counter is used in ten ways and made in two (`Counter.Use`). Three mechanisms are behind them: a single
request, a swap that answers what it has replaced, and rounds with a commit.

**The law** (`failure_leaves`): a use that fails has changed what no key holds. There is one exception.
`getAndSet` writes before it looks at what it has replaced, so it fails after it has written if that was
nothing, or no integer (`WritesThenFails`), and in no other case. Nothing is taken for an integer that is
none: whoever reads such a value fails.

All uses but that one fail quietly among any deeds of others, too (`Use.failsQuietly`).
-/

namespace WatchedStore

namespace Counter

/-- **A use of a counter**: its construction, or an operation. -/
inductive Use where
  | create (settings : CounterSettings) (init : Initialization) (draw : Nat → Float)
  | get
  | set (value : Int64)
  | getAndSet (value : Int64)
  | incrementAndGet
  | decrementAndGet
  | addAndGet (delta : Int64)
  | getAndIncrement
  | getAndDecrement
  | getAndAdd (delta : Int64)
  | compareAndSet (expect update : Int64)

namespace Use

/-- What a use is answered with. -/
def Answer : Use → Type
  | create .. => Counter
  | set _ => Unit
  | compareAndSet .. => Bool
  | get | getAndSet _ | incrementAndGet | decrementAndGet | addAndGet _ | getAndIncrement | getAndDecrement
  | getAndAdd _ => Int64

/-- The use of a counter on its key; a construction makes another counter on it. -/
def action (c : Counter) : (use : Use) → Action τ use.Answer
  | create settings init draw => Counter.create c.key settings init draw
  | get => c.get
  | set value => c.set value
  | getAndSet value => c.getAndSet value
  | incrementAndGet => c.incrementAndGet
  | decrementAndGet => c.decrementAndGet
  | addAndGet delta => c.addAndGet delta
  | getAndIncrement => c.getAndIncrement
  | getAndDecrement => c.getAndDecrement
  | getAndAdd delta => c.getAndAdd delta
  | compareAndSet expect update => c.compareAndSet expect update

/-- Whether a use asks for the integer under the key. -/
def reads : Use → Bool
  | create .. | set _ => false
  | _ => true

end Use

end Counter

namespace Memory

open WatchedStore.Action WatchedStore.Counter

variable {c : Counter} {key : String} {held : Option Entry} {solo : Solo}

/-! ## Failures without effect -/

/-- One direct operation, behind which a program cannot fail. -/
theorem FailsQuietly.request {r : Request} {next : r.Answer → Program Transaction (Except Error α)}
    (hr : ∀ commands, r ≠ .batch commands) (hnext : ∀ a, ∃ b, Ends (.ok b) (next a)) :
    FailsQuietly (.call (.request r) (andThen next)) := by
  refine .call fun t s => ?_
  show (∃ b, Ends (.ok b) (andThen next (s.request t r).1)) ∨
    Visit.Quiet ⟨t, s, .request r⟩ ∧ FailsQuietly (andThen next (s.request t r).1)
  cases hanswer : (s.request t r).1 with
  | ok a => exact .inl (hnext a)
  | error e => exact .inr ⟨Visit.quiet_of_error hr hanswer, .of_ends .done⟩

theorem askAndTell_failsQuietly (c : Counter) (r : Request) (value : r.Answer → Int64)
    (operation : String) (hr : ∀ commands, r ≠ .batch commands) :
    FailsQuietly (ExceptT.run (c.askAndTell r value operation)) := by
  rw [askAndTell_calls]
  exact .request hr fun a => ⟨_, .report .done⟩

/-- A write, behind which a program is done. -/
theorem set_return_failsQuietly (c : Counter) (value : Int64) (a : α) :
    FailsQuietly (ExceptT.run (do c.set value; return a)) := by
  have hcalls : ExceptT.run (do c.set value; return a) =
      .call (.request (.set c.key (encode value) none)) (andThen fun _ =>
        Program.report (τ := Transaction) (c.operated "set" value) (.done (.ok a))) := by
    refine congrArg (Program.call _) (funext fun answer => ?_)
    cases answer <;> rfl
  rw [hcalls]
  exact .request (fun _ h => by cases h) fun _ => ⟨_, .report .done⟩

theorem set_failsQuietly (c : Counter) (value : Int64) : FailsQuietly (ExceptT.run (c.set value)) := by
  have hreturn : ExceptT.run (c.set (τ := Transaction) value) =
      ExceptT.run (do c.set value; return ()) := by
    refine congrArg (Program.call _) (funext fun answer => ?_)
    cases answer <;> rfl
  rw [hreturn]
  exact set_return_failsQuietly c value ()

theorem create_failsQuietly (key : String) (settings : CounterSettings) (init : Initialization)
    (draw : Nat → Float) : FailsQuietly (ExceptT.run (create key settings init draw)) := by
  cases hkey : key.isEmpty with
  | true =>
    rw [create_of_isEmpty hkey]
    exact .of_ends .done
  | false =>
    cases init with
    | value n =>
      have hvalue : create (τ := Transaction) key settings (.value n) draw =
          (do let c : Counter := { key, retry := settings.retry, draw }; c.set n; return c) := by
        unfold create
        rw [hkey]
        rfl
      rw [hvalue]
      exact set_return_failsQuietly ..
    | existingOrZero =>
      rw [create_calls hkey]
      refine .call fun t s => .inr ⟨live_request_get s key t, ?_⟩
      show FailsQuietly (andThen _ (s.request t (.get key)).1)
      rcases (s.request t (.get key)).1 with e | _ | b
      · exact .of_ends .done
      · exact .report (set_return_failsQuietly ..)
      · exact .of_ends .done

theorem get_failsQuietly (c : Counter) : FailsQuietly (ExceptT.run c.get) := by
  rw [get_calls]
  exact .call fun t s => .inr ⟨live_request_get s c.key t, .of_ends .done⟩

/-- **All uses but the swap that answers what it has replaced fail quietly**, whatever others do. -/
theorem Use.failsQuietly (c : Counter) {use : Use} (h : ∀ value, use ≠ .getAndSet value) :
    FailsQuietly (ExceptT.run (use.action c)) := by
  cases use with
  | create settings init draw => exact create_failsQuietly c.key settings init draw
  | get => exact get_failsQuietly c
  | set value => exact set_failsQuietly c value
  | getAndSet value => exact absurd rfl (h value)
  | incrementAndGet =>
    exact askAndTell_failsQuietly c (.increment c.key 1) id "increment_and_get" fun _ h => by cases h
  | decrementAndGet =>
    exact askAndTell_failsQuietly c (.decrement c.key 1) id "decrement_and_get" fun _ h => by cases h
  | addAndGet delta =>
    exact askAndTell_failsQuietly c (.increment c.key delta) id "add_and_get" fun _ h => by cases h
  | getAndIncrement => exact .of_lands (fun _ => rfl) fun hs hc => Fetches.increment.lands hs hc
  | getAndDecrement => exact .of_lands (fun _ => rfl) fun hs hc => Fetches.decrement.lands hs hc
  | getAndAdd delta => exact .of_lands (fun _ => rfl) fun hs hc => (Fetches.add delta).lands hs hc
  | compareAndSet expect update =>
    exact .of_lands (fun _ => rfl) fun hs hc => compareAndSet_lands hs hc

/-! ## Nothing that is no integer is taken for one -/

/-- Whether an entry is an integer. -/
def Entry.IsInteger (key : String) (e : Entry) : Prop :=
  ∃ b n, e.value = .bytes b ∧ decode key b = .ok n

/-- **A key that holds no integer**, but something else or nothing. -/
def NoInteger (key : String) (held : Option Entry) : Prop :=
  ∀ e, held = some e → ¬ e.IsInteger key

theorem NoInteger.filter (h : NoInteger key held) (p : Entry → Bool) : NoInteger key (held.filter p) :=
  fun e he => h e (Option.filter_eq_some_iff.mp he).1

/-- Bytes that are no integer are told as such, with their key. -/
theorem decode_of_ne_ok {b : Bytes} (h : ∀ n, decode key b ≠ .ok n) :
    decode key b = .error (.malformedInteger key (Utf8.decodeLossy b)) := by
  rw [decode_eq_readSigned]
  simp only [decode_eq_readSigned] at h
  cases hread : Numeral.readSigned b with
  | error e => rfl
  | ok n =>
    rw [hread] at h
    exact absurd rfl (h n)

theorem NoInteger.decode_error {b : Bytes} {until_ : Option Instant}
    (h : NoInteger key (some ⟨.bytes b, until_⟩)) :
    decode key b = .error (.malformedInteger key (Utf8.decodeLossy b)) :=
  decode_of_ne_ok fun n hn => h _ rfl ⟨b, n, rfl, hn⟩

/-- What is read where there is no integer is no integer. -/
theorem NoInteger.get_fails (h : NoInteger c.key held) (full : Bool) :
    ∃ e, (Rule.get held full).1.bind c.ofStored = .error e := by
  rcases held with _ | ⟨b | set, until_⟩
  · exact ⟨_, rfl⟩
  · exact ⟨_, h.decode_error⟩
  · exact ⟨_, rfl⟩

/-- Nor is what a swap has replaced. -/
theorem NoInteger.getSet_fails (h : NoInteger c.key held) (value : Bytes) (full : Bool) :
    ∃ e, (Rule.getSet value held full).1.bind c.ofStored = .error e := by
  rcases held with _ | ⟨b | set, until_⟩
  · cases full <;> exact ⟨_, rfl⟩
  · cases full
    · exact ⟨_, h.decode_error⟩
    · exact ⟨_, rfl⟩
  · exact ⟨_, rfl⟩

/-- Arithmetic fails where there is something, but no integer. -/
theorem NoInteger.increment_fails {e : Entry} (h : NoInteger key (some e)) (amount : Int64) (full : Bool) :
    ∃ err, (Rule.increment key amount (some e) full).1 = .error err := by
  obtain ⟨b | set, until_⟩ := e
  · simp only [Rule.increment, h.decode_error]
    exact ⟨_, rfl⟩
  · exact ⟨_, rfl⟩

/-- A direct operation whose answer is of no use, be the lock poisoned or not. -/
theorem request_fails {now : Instant} {r : Request} {rule : Rule r.Answer} {s : Store}
    (hrule : Rule.Decides now r key rule) {f : r.Answer → Except Error α}
    (h : ∀ full, ∃ e, (rule (s.state.live now key) full).1.bind f = .error e) :
    ∃ e, (s.request now r).1.bind f = .error e := by
  cases hp : s.poisoned with
  | true =>
    rw [request_of_poisoned hp hrule]
    exact ⟨_, rfl⟩
  | false =>
    rw [request_fst_of_sound hp hrule]
    exact h _

/-- A read inside a transaction finds no integer where there is none. -/
theorem NoInteger.txGet_fails {now : Instant} {s : Store} (h : NoInteger c.key (s.state.live now c.key))
    (tx : Transaction) : ∃ e, (s.call now (.txGet tx c.key)).1.bind c.ofStored = .error e := by
  cases hp : s.poisoned with
  | true =>
    rw [call_txGet_of_poisoned hp]
    exact ⟨_, rfl⟩
  | false =>
    rw [call_txGet_of_sound hp]
    exact h.get_fails false

/-- The read of a round fails if the key holds no integer, and nothing comes behind it. -/
theorem NoInteger.readWatched_fails {k : Int64 → Program Transaction (Except Error α)}
    (h : NoInteger c.key (solo.next.store.state.live solo.next.now c.key)) (tx : Transaction) :
    ∃ e, (((ExceptT.run (c.readWatched tx)).bind (andThen k)).run Solo.backend solo).1 = .error e := by
  obtain ⟨e, he⟩ := h.txGet_fails tx
  rw [Program.run_bind, readWatched_calls, Solo.run_call]
  refine ⟨e, ?_⟩
  have hanswer : (solo.call (.txGet tx c.key)).1.bind c.ofStored = .error e := he
  rw [hanswer]
  rfl

/-- **A round fails if its key holds no integer** when it begins. -/
theorem NoInteger.opened_fails {k : Transaction → Int64 → Program Transaction (Except Error α)}
    (h : NoInteger c.key (solo.next.store.state.live solo.next.now c.key)) :
    ∃ e, ((c.opened k).run Solo.backend solo).1 = .error e := by
  unfold opened
  rw [Solo.run_call]
  have hlive : (solo.call (.watch [c.key])).2.store.state.live solo.next.now =
      solo.next.store.state.live solo.next.now := live_call_watch ..
  cases (solo.call (.watch [c.key])).1 with
  | error e => exact ⟨e, rfl⟩
  | ok tx =>
    refine NoInteger.readWatched_fails ?_ tx
    rw [Solo.live_next]
    exact NoInteger.filter ((congrFun hlive c.key).symm ▸ h) _

/-- So does an operation in rounds, in its first. -/
theorem NoInteger.getAndAdd_fails (h : NoInteger c.key (solo.next.store.state.live solo.next.now c.key))
    (delta : Int64) : ∃ e, (Action.run Solo.backend (c.getAndAdd delta) solo).1 = .error e := by
  obtain ⟨refused, hcalls⟩ := c.getAndAdd_calls (τ := Transaction) delta
  rw [Action.run, hcalls, Program.run_bind, addRound_calls]
  obtain ⟨e, he⟩ := h.opened_fails
  rw [he]
  exact ⟨e, rfl⟩

theorem NoInteger.compareAndSet_fails
    (h : NoInteger c.key (solo.next.store.state.live solo.next.now c.key)) (expect update : Int64) :
    ∃ e, (Action.run Solo.backend (c.compareAndSet expect update) solo).1 = .error e := by
  obtain ⟨different, refused, hcalls⟩ := c.compareAndSet_calls (τ := Transaction) expect update
  rw [Action.run, hcalls]
  exact h.opened_fails

theorem getAndSet_calls (c : Counter) (value : Int64) :
    ExceptT.run (c.getAndSet (τ := τ) value) =
      .call (.request (.getSet c.key (encode value))) fun a => .done (a.bind c.ofStored) := by
  refine congrArg (Program.call _) (funext fun a => ?_)
  cases a <;> rfl

theorem NoInteger.read_fails (h : NoInteger c.key (solo.next.store.state.live solo.next.now c.key)) :
    ∃ e, (Action.run Solo.backend c.get solo).1 = .error e := by
  rw [Action.run, get_calls]
  exact request_fails (.get c.key) h.get_fails

theorem NoInteger.getAndSet_fails
    (h : NoInteger c.key (solo.next.store.state.live solo.next.now c.key)) (value : Int64) :
    ∃ e, (Action.run Solo.backend (c.getAndSet value) solo).1 = .error e := by
  rw [Action.run, getAndSet_calls]
  exact request_fails (.getSet c.key (encode value)) (h.getSet_fails (encode value))

/-- One request of arithmetic fails where there is something, but no integer. -/
theorem askAndTell_fails {r : Request} {rule : Rule r.Answer}
    (hrule : Rule.Decides solo.next.now r c.key rule)
    (h : ∀ full, ∃ e, (rule (solo.next.store.state.live solo.next.now c.key) full).1 = .error e)
    (value : r.Answer → Int64) (operation : String) :
    ∃ e, (Action.run Solo.backend (c.askAndTell r value operation) solo).1 = .error e := by
  rw [Action.run, askAndTell_calls, Solo.run_call]
  have hanswer : ∃ e, (solo.call (.request r)).1.bind Except.ok = .error e := by
    refine request_fails hrule fun full => ?_
    obtain ⟨e, he⟩ := h full
    exact ⟨e, by rw [he]; rfl⟩
  obtain ⟨e, he⟩ := hanswer
  cases hask : (solo.call (.request r)).1 with
  | error e' => exact ⟨e', rfl⟩
  | ok a =>
    rw [hask] at he
    cases he

/-- **Nothing that is no integer is taken for one**: a use that asks for the integer under its key fails if
there is something else. -/
theorem Use.fails_of_noInteger {e : Entry} {use : Use} (hreads : use.reads = true)
    (hheld : solo.next.store.state.live solo.next.now c.key = some e) (hnot : ¬ e.IsInteger c.key) :
    ∃ err, (Action.run Solo.backend (use.action c) solo).1 = .error err := by
  have h : NoInteger c.key (solo.next.store.state.live solo.next.now c.key) := by
    rintro e' he'
    rw [hheld] at he'
    cases he'
    exact hnot
  have hincrement : ∀ amount full, ∃ err, (Rule.increment c.key amount
      (solo.next.store.state.live solo.next.now c.key) full).1 = .error err := by
    rw [hheld] at h ⊢
    exact h.increment_fails
  cases use with
  | create => cases hreads
  | set => cases hreads
  | get => exact h.read_fails
  | getAndSet value => exact h.getAndSet_fails value
  | incrementAndGet =>
    exact askAndTell_fails (.increment c.key 1) (hincrement 1) id "increment_and_get"
  | decrementAndGet =>
    exact askAndTell_fails (.decrement c.key rfl) (hincrement (-1)) id "decrement_and_get"
  | addAndGet delta =>
    exact askAndTell_fails (.increment c.key delta) (hincrement delta) id "add_and_get"
  | getAndIncrement => exact h.getAndAdd_fails 1
  | getAndDecrement => exact h.getAndAdd_fails (-1)
  | getAndAdd delta => exact h.getAndAdd_fails delta
  | compareAndSet expect update => exact h.compareAndSet_fails expect update

/-! ## The one that writes first -/

/-- **What `getAndSet` meets when it fails although it writes**, and how it fails: nothing under the key and
room for it, or bytes that are no integer. -/
inductive WritesThenFails (key : String) (now : Instant) (s : Store) : Error → Prop
  | absent (hnone : s.state.live now key = none)
    (hroom : (s.state.purge key now).isFull key s.maxEntries = false) :
    WritesThenFails key now s (.keyNotFound key)
  | malformed {b : Bytes} {until_ : Option Instant}
    (hheld : s.state.live now key = some ⟨.bytes b, until_⟩) (hnot : ∀ n, decode key b ≠ .ok n) :
    WritesThenFails key now s (.malformedInteger key (Utf8.decodeLossy b))

/-- A swap that is answered has found room, and writes for good. -/
theorem Rule.getSet_ok {value : Bytes} {full : Bool} {previous : Option Bytes}
    (h : (Rule.getSet value held full).1 = .ok previous) :
    full = false ∧ (Rule.get held full).1 = .ok previous ∧
      (Rule.getSet value held full).2 = .put ⟨.bytes value, none⟩ := by
  unfold Rule.getSet at h ⊢
  cases hget : (Rule.get held full).1 with
  | error e =>
    rw [hget] at h
    cases h
  | ok found =>
    rw [hget] at h
    cases full <;> cases h
    exact ⟨rfl, rfl, rfl⟩

/-- What keys hold after bytes were written to one of them, for good. -/
def written (key : String) (value : Bytes) (m : Contents) : Contents := fun k =>
  if k = key then some ⟨.bytes value, none⟩ else m k

section GetSet

variable {now : Instant} {s : Store} {value : Bytes} {previous : Option Bytes}

/-- **A swap under a sound lock** is answered by its rule, and writes if it is answered. -/
theorem request_getSet_of_sound (hsound : s.poisoned = false) (key : String) (value : Bytes)
    (now : Instant) :
    (s.request now (.getSet key value)).1 =
        (Rule.getSet value (s.state.live now key) ((s.state.purge key now).isFull key s.maxEntries)).1 ∧
      ∀ previous, (s.request now (.getSet key value)).1 = .ok previous →
        (s.request now (.getSet key value)).2.state.live now = written key value (s.state.live now) := by
  have hrule : Rule.Decides now (.getSet key value) key (Rule.getSet value) := .getSet key value
  have hfst := request_fst_of_sound hsound hrule
  refine ⟨hfst, fun previous h => ?_⟩
  obtain ⟨-, -, hput⟩ := Rule.getSet_ok (hfst.symm.trans h)
  rw [Store.request_eq_follow hrule, Store.locked_of_sound hsound]
  exact State.live_follow_put _ _ hput rfl

/-- Where `getAndSet` writes and fails, it does. -/
theorem WritesThenFails.getSet {e : Error} (h : WritesThenFails c.key now s e)
    (hsound : s.poisoned = false) (value : Bytes) :
    ∃ previous, (s.request now (.getSet c.key value)).1 = .ok previous ∧
      c.ofStored previous = .error e := by
  rw [(request_getSet_of_sound hsound c.key value now).1]
  cases h with
  | absent hnone hroom =>
    rw [hnone, hroom]
    exact ⟨none, rfl, rfl⟩
  | @malformed b until_ hheld hnot =>
    rw [State.isFull_of_live _ hheld, hheld]
    exact ⟨some b, rfl, decode_of_ne_ok hnot⟩

/-- Nowhere else it does. -/
theorem writesThenFails_of_getSet {e : Error} (hsound : s.poisoned = false)
    (h : (s.request now (.getSet c.key value)).1 = .ok previous) (he : c.ofStored previous = .error e) :
    WritesThenFails c.key now s e := by
  rw [(request_getSet_of_sound hsound c.key value now).1] at h
  obtain ⟨hroom, hget, -⟩ := Rule.getSet_ok h
  cases hheld : s.state.live now c.key with
  | none =>
    rw [hheld] at hget
    cases hget
    cases he
    exact .absent hheld hroom
  | some entry =>
    obtain ⟨b | set, until_⟩ := entry
    · rw [hheld] at hget
      cases hget
      have hdecode : decode c.key b = .error e := he
      have hnot : ∀ n, decode c.key b ≠ .ok n := fun n hn => by
        rw [hdecode] at hn
        cases hn
      rw [decode_of_ne_ok hnot] at hdecode
      cases hdecode
      exact .malformed hheld hnot
    · rw [hheld] at hget
      cases hget

end GetSet

theorem getAndSet_run (c : Counter) (value : Int64) (solo : Solo) :
    let asked := solo.next.store.request solo.next.now (.getSet c.key (encode value))
    Action.run Solo.backend (c.getAndSet value) solo =
      (asked.1.bind c.ofStored, { solo.next with store := asked.2 }) := by
  rw [Action.run, getAndSet_calls, Solo.run_call]
  rfl

/-- A swap that fails has changed nothing, or it has written and fails by what it has replaced. -/
theorem getAndSet_keeps_or_writes {e : Error} {value : Int64}
    (h : (Action.run Solo.backend (c.getAndSet value) solo).1 = .error e) :
    let out := Action.run Solo.backend (c.getAndSet value) solo
    out.2.store.state.live out.2.now = solo.store.state.live out.2.now ∨
      solo.store.poisoned = false ∧ WritesThenFails c.key solo.next.now solo.next.store e := by
  rw [getAndSet_run] at h ⊢
  dsimp only at h ⊢
  rw [← solo.live_met]
  cases hanswer : (solo.next.store.request solo.next.now (.getSet c.key (encode value))).1 with
  | error e' => exact .inl (Visit.quiet_of_error (fun _ h => by cases h) hanswer)
  | ok previous =>
    rw [hanswer] at h
    have hsound : solo.next.store.poisoned = false := by
      refine Bool.eq_false_iff.mpr fun hp => ?_
      rw [request_of_poisoned hp (.getSet c.key _)] at hanswer
      cases hanswer
    exact .inr ⟨solo.poisoned_next ▸ hsound, writesThenFails_of_getSet hsound hanswer h⟩

/-- Where it writes and fails, it does. -/
theorem WritesThenFails.getAndSet {e : Error} (hsound : solo.store.poisoned = false)
    (h : WritesThenFails c.key solo.next.now solo.next.store e) (value : Int64) :
    let out := Action.run Solo.backend (c.getAndSet value) solo
    out.1 = .error e ∧
      out.2.store.state.live out.2.now =
        written c.key (encode value) (solo.store.state.live out.2.now) := by
  rw [getAndSet_run]
  dsimp only
  have hmet : solo.next.store.poisoned = false := solo.poisoned_next.trans hsound
  obtain ⟨previous, hanswer, hfails⟩ := h.getSet hmet (encode value)
  rw [hanswer, ← solo.live_met]
  exact ⟨hfails, (request_getSet_of_sound hmet c.key (encode value) solo.next.now).2 previous hanswer⟩

/-- **A failure leaves a store alone, but for one.** A counter is used in any way by a client that has a
reachable store to itself, whatever the key holds and however full the store is; in between its calls time
may pass, and the store may be cleaned up.

If the use fails, the store holds in the end what it would hold by then without it; unless the use is
`getAndSet` and meets, under a sound lock, nothing under the key and room for it, or bytes that are no
integer. Then it does fail, by the absence of the key or by the bytes, and the key holds the new value for
good. And a use that asks for the integer under the key fails if there is something else. -/
theorem failure_leaves (c : Counter) (use : Use) {solo : Solo} (hs : Reachable solo.now solo.store) :
    let out := Action.run Solo.backend (use.action c) solo
    let before := solo.store.state.live out.2.now
    let after := out.2.store.state.live out.2.now
    (∀ e, out.1 = .error e → after = before ∨
      ((∃ value, use = .getAndSet value) ∧ solo.store.poisoned = false ∧
        WritesThenFails c.key solo.next.now solo.next.store e)) ∧
    (∀ value e, use = .getAndSet value → solo.store.poisoned = false →
      WritesThenFails c.key solo.next.now solo.next.store e →
      out.1 = .error e ∧ after = written c.key (encode value) before) ∧
    (∀ e, use.reads = true → solo.next.store.state.live solo.next.now c.key = some e →
      ¬ e.IsInteger c.key → ∃ err, out.1 = .error err) := by
  intro out before after
  refine ⟨fun e he => ?_, ?_, fun e hreads hheld hnot => Use.fails_of_noInteger hreads hheld hnot⟩
  · by_cases hset : ∃ value, use = .getAndSet value
    · obtain ⟨value, rfl⟩ := hset
      exact (getAndSet_keeps_or_writes he).imp_right fun h => ⟨⟨value, rfl⟩, h⟩
    · have hquiet := Use.failsQuietly c fun value h => hset ⟨value, h⟩
      exact .inl (hquiet.live_run hs.wellFormed he)
  · rintro value e rfl hsound h
    exact h.getAndSet hsound value

/-- A key holds a letter, in a store without room for another one. A swap on condition fails and leaves it;
a swap that answers what it has replaced fails, too, and the key holds five. -/
theorem failure_leaves_letter :
    let c : Counter := { key := "n", retry := .standard, draw := fun _ => 1.0 }
    let s := ({ maxEntries := 1 } : Store).perform 0 (.call (.request (.set "n" [0x78] none)))
    let solo : Solo := { store := s, ahead := [[.pass 7, .cleanUp], [.pass 1]] }
    let swap := Action.run Solo.backend (c.compareAndSet 1 2) solo
    let replace := Action.run Solo.backend (c.getAndSet 5) solo
    (∃ e, swap.1 = .error e) ∧
      swap.2.store.state.live swap.2.now "n" = some ⟨.bytes [0x78], none⟩ ∧
      replace.1 = .error (.malformedInteger "n" "x") ∧
      replace.2.store.state.live replace.2.now "n" = some ⟨.bytes [0x35], none⟩ := by
  intro c s solo swap replace
  have hreach : Reachable 0 s := ⟨1, Reaches.refl.deed _⟩
  have hs : Reachable solo.now solo.store := hreach
  have hentry : solo.store.state.entries["n"]? = some ⟨.bytes [0x78], none⟩ := rfl
  have hheld : solo.next.store.state.live solo.next.now "n" = some ⟨.bytes [0x78], none⟩ := rfl
  have hnot : ∀ n, decode "n" [0x78] ≠ .ok n := fun n hn => by cases hn
  have hinteger : ¬ Entry.IsInteger "n" ⟨.bytes [0x78], none⟩ := by
    rintro ⟨b, n, hb, hn⟩
    cases hb
    exact hnot n hn
  have hswap : Action.run Solo.backend ((Use.compareAndSet 1 2).action c) solo = swap := rfl
  have hreplace : Action.run Solo.backend ((Use.getAndSet 5).action c) solo = replace := rfl
  obtain ⟨hkeeps, -, hreads⟩ := failure_leaves c (.compareAndSet 1 2) hs
  obtain ⟨-, hwrites, -⟩ := failure_leaves c (.getAndSet 5) hs
  rw [hswap] at hkeeps hreads
  rw [hreplace] at hwrites
  -- from here on nothing is known of the two runs but what the law says
  clear_value swap replace
  obtain ⟨e, he⟩ := hreads _ rfl hheld hinteger
  obtain ⟨hfails, hwritten⟩ := hwrites 5 _ rfl rfl (.malformed hheld hnot)
  refine ⟨⟨e, he⟩, ?_, hfails, congrFun hwritten "n"⟩
  rcases hkeeps e he with hsame | ⟨⟨value, h⟩, -⟩
  · exact (congrFun hsame "n").trans (State.live_of_forever hentry _)
  · cases h

end Memory

end WatchedStore
