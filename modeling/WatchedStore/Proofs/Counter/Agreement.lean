import WatchedStore.Proofs.Counter.Failure
import WatchedStore.Proofs.Memory.Failure

/-!
# Two ways to add

`addAndGet` is one command of the store. `getAndAdd` reads in one call and adds in another, with an own
reading of the integer, a check of versions, and a reply that is turned into an error again. Alone with a
store and at one reading of the clock nothing of that shows: it follows a rule like a command does
(`getAndAdd_run`), so the two are compared by their rules.

**The law** (`additions_agree`): where the key holds an integer or a set, the two agree in all but the value
that they answer, which is the one before or the sum. Where it holds nothing or bytes that are no integer,
they fail for different reasons, or only one of them does.
-/

namespace WatchedStore.Memory

open WatchedStore.Action WatchedStore.Counter

/-- **The rule of `getAndAdd`**: the integer that is held, and the sum in its place with the same
deadline. -/
def Rule.getAndAdd (key : String) (delta : Int64) : Rule Int64
  | some ⟨.bytes b, until_⟩, _ =>
    match decode key b with
    | .ok n =>
      ((store (Numeral.sum? n delta) until_).1.map fun _ => n, (store (Numeral.sum? n delta) until_).2)
    | .error e => (.error e, .keep)
  | some ⟨.members _, _⟩, _ => (.error .wrongType, .keep)
  | none, _ => (.error (.keyNotFound key), .keep)

variable {c : Counter} {s : Store} {now : Instant} {key : String} {delta : Int64}

/-! ## One round at one reading -/

/-- A store at one reading of the clock, with nothing ahead. -/
def Solo.still (s : Store) (now : Instant) : Solo := { store := s, now }

theorem Solo.run_still {c : Call Transaction} {next : Except Error c.Answer → Program Transaction α}
    {answer : Except Error c.Answer} {s' : Store} (h : s.call now c = (answer, s')) :
    Program.run Solo.backend (.call c next) (.still s now) =
      (next answer).run Solo.backend (.still s' now) := by
  have hrun : Program.run Solo.backend (.call c next) (.still s now) =
      (next (s.call now c).1).run Solo.backend (.still (s.call now c).2 now) := rfl
  rw [hrun, h]

/-- The store behind a read of a key. -/
def Store.purged (s : Store) (key : String) (now : Instant) : Store :=
  { s with state := s.state.purge key now }

/-- The transaction that was opened on one key of this store. -/
def Store.opened (s : Store) (key : String) : Transaction := ⟨[(key, s.state.version key)]⟩

theorem State.follow_purge (s : State) (rule : Rule α) (key : String) (max : Nat) (now : Instant) :
    (s.purge key now).follow rule key max now = s.follow rule key max now := by
  unfold follow
  rw [purge_purge]

theorem State.follow_eq (s : State) (rule : Rule α) (key : String) (max : Nat) (now : Instant) :
    s.follow rule key max now =
      ((rule (s.live now key) ((s.purge key now).isFull key max)).1,
        (s.purge key now).update key (rule (s.live now key) ((s.purge key now).isFull key max)).2) := by
  rw [← entries_purge_self]
  rfl

theorem call_watch_one (hsound : s.poisoned = false) (key : String) (now : Instant) :
    s.call now (.watch [key]) = (.ok ((s.purged key now).opened key), s.purged key now) := by
  rw [call_watch_of_sound hsound]
  rfl

theorem call_txGet_purged (hsound : s.poisoned = false) (tx : Transaction) (key : String)
    (now : Instant) :
    (s.purged key now).call now (.txGet tx key) =
      ((Rule.get (s.state.live now key) false).1, s.purged key now) := by
  have hpurged : (s.purged key now).poisoned = false := hsound
  rw [call_txGet_of_sound hpurged]
  simp only [Store.purged, State.purge_purge, State.live_purge]
  rfl

theorem afterRead_run (tx : Transaction) (r : Except Error Int64) (s : Store) (now : Instant) :
    (afterRead tx r).run Solo.backend (.still s now) = (r, .still s now) := by
  cases r <;> rfl

theorem readWatched_run (hsound : s.poisoned = false) (c : Counter) (tx : Transaction) (now : Instant) :
    (ExceptT.run (c.readWatched tx)).run Solo.backend (.still (s.purged c.key now) now) =
      ((Rule.get (s.state.live now c.key) false).1.bind c.ofStored, .still (s.purged c.key now) now) := by
  rw [readWatched_calls]
  exact (Solo.run_still (call_txGet_purged hsound tx c.key now)).trans (afterRead_run ..)

/-- **A round at one reading** reads what its key holds, and goes on from the purged store. -/
theorem opened_run {k : Transaction → Int64 → Program Transaction (Except Error α)}
    (hsound : s.poisoned = false) :
    (c.opened k).run Solo.backend (.still s now) =
      (andThen (k ((s.purged c.key now).opened c.key))
        ((Rule.get (s.state.live now c.key) false).1.bind c.ofStored)).run Solo.backend
          (.still (s.purged c.key now) now) := by
  refine (Solo.run_still (call_watch_one hsound c.key now)).trans ?_
  refine (Program.run_bind Solo.backend (ExceptT.run (c.readWatched _)) _ _).trans ?_
  rw [readWatched_run hsound]
  rfl

/-- **A commit of one command at one reading** passes, and is what the command's rule says. -/
theorem call_exec_opened (hsound : s.poisoned = false) (cmd : Command) {now : Instant}
    (hrep : cmd.Representable now) :
    (s.purged cmd.key now).call now (.exec ((s.purged cmd.key now).opened cmd.key) [cmd]) =
      (.ok (some [.ofAnswer (s.state.follow (Rule.ofCommand now cmd) cmd.key s.maxEntries now).1]),
        { s with state := (s.state.follow (Rule.ofCommand now cmd) cmd.key s.maxEntries now).2 }) := by
  have hcheck : (s.state.purge cmd.key now).unchanged
      [(cmd.key, (s.state.purge cmd.key now).version cmd.key)] now =
        (true, s.state.purge cmd.key now) := by
    simp only [State.unchanged, State.purge_purge, if_true]
  have hpass : Passes ((s.purged cmd.key now).opened cmd.key) now (s.purged cmd.key now) :=
    congrArg Prod.fst hcheck
  have hpurged : (s.purged cmd.key now).poisoned = false := hsound
  refine (call_exec_of_passes hpurged hpass (List.forall_mem_singleton.mpr hrep)).trans ?_
  simp only [Store.purged, Store.opened]
  rw [hcheck]
  dsimp only
  rw [State.applyAll_cons_of_representable hrep, State.apply_eq_follow, State.follow_purge]
  rfl

/-! ## Additions by their rules -/

/-- How a round ends by the reply of its one command. -/
theorem afterCommit_run {carriedOut refused : Program Transaction (Except Error α)} (r : Reply)
    (s : Store) (now : Instant) :
    (afterCommit carriedOut refused (.ok (some [r]))).run Solo.backend (.still s now) =
      match r.asError? with
      | some reason => (.error (.command reason), .still s now)
      | none => carriedOut.run Solo.backend (.still s now) := by
  have hcheck : Reply.check [r] =
      match r.asError? with
      | some reason => .error (.command reason)
      | none => .ok [r] := by
    unfold Reply.check
    cases h : r.asError? <;> simp [h]
  unfold afterCommit andThen
  dsimp only
  rw [hcheck]
  cases r.asError? <;> rfl

/-- **One attempt to add, alone and at one reading**, is what its rule says. -/
theorem addRound_run (hsound : s.poisoned = false) (c : Counter) (delta : Int64) (now : Instant) :
    let out := s.state.follow (Rule.getAndAdd c.key delta) c.key s.maxEntries now
    (ExceptT.run (c.addRound delta)).run Solo.backend (.still s now) =
      (out.1.map some, .still { s with state := out.2 } now) := by
  dsimp only
  have hrep : (Command.increment c.key delta).Representable now := trivial
  have hcommit := call_exec_opened hsound (.increment c.key delta) hrep
  rw [addRound_calls, opened_run hsound]
  rw [State.follow_eq] at hcommit ⊢
  rw [Command.key] at hcommit
  cases hheld : s.state.live now c.key with
  | none => rfl
  | some e =>
    obtain ⟨b | set, until_⟩ := e
    · rw [hheld] at hcommit
      simp only [Rule.ofCommand, Rule.map, Rule.increment] at hcommit
      have hread : (Rule.get (some ⟨.bytes b, until_⟩) false).1.bind c.ofStored = decode c.key b := rfl
      rw [hread]
      simp only [Rule.getAndAdd]
      cases hb : decode c.key b with
      | error err => rfl
      | ok n =>
        rw [hb] at hcommit
        dsimp only at hcommit ⊢
        refine (Solo.run_still hcommit).trans ((afterCommit_run ..).trans ?_)
        cases Numeral.sum? n delta <;> rfl
    · rfl

/-- **`getAndAdd` alone and at one reading** is what its rule says. No round of it is refused. -/
theorem getAndAdd_run (hsound : s.poisoned = false) (c : Counter) (delta : Int64) (now : Instant) :
    let out := s.state.follow (Rule.getAndAdd c.key delta) c.key s.maxEntries now
    Action.run Solo.backend (c.getAndAdd delta) (.still s now) =
      (out.1, .still { s with state := out.2 } now) := by
  intro out
  obtain ⟨refused, hcalls⟩ := c.getAndAdd_calls (τ := Transaction) delta
  rw [Action.run, hcalls, Program.run_bind, addRound_run hsound]
  show (andThen _ (out.1.map some)).run Solo.backend (.still { s with state := out.2 } now) = _
  cases out.1 <;> rfl

/-- **So is `addAndGet`**, by the rule of the store's own command. -/
theorem addAndGet_run (hsound : s.poisoned = false) (c : Counter) (delta : Int64) (now : Instant) :
    let out := s.state.follow (Rule.increment c.key delta) c.key s.maxEntries now
    Action.run Solo.backend (c.addAndGet delta) (.still s now) =
      (out.1, .still { s with state := out.2 } now) := by
  intro out
  have hcall : s.call now (.request (.increment c.key delta)) = (out.1, { s with state := out.2 }) := by
    have hcalm : crashed out.1 = false := (Rule.increment_clean c.key delta).calm _ _
    rw [Store.call, Store.request_eq_follow (.increment c.key delta), Store.locked_of_sound hsound]
    show (out.1, ({ s with state := out.2, poisoned := crashed out.1 } : Store)) = _
    rw [hcalm, ← hsound]
  have hcalls := askAndTell_calls (τ := Transaction) c (.increment c.key delta) id "add_and_get"
  refine (congrArg (Program.run Solo.backend · (.still s now)) hcalls).trans ?_
  refine (Solo.run_still hcall).trans ?_
  cases out.1 <;> rfl

theorem getAndAdd_run_of_poisoned (hp : s.poisoned = true) (c : Counter) (delta : Int64)
    (now : Instant) :
    Action.run Solo.backend (c.getAndAdd delta) (.still s now) =
      (.error Store.lockPoisoned, .still s now) := by
  obtain ⟨refused, hcalls⟩ := c.getAndAdd_calls (τ := Transaction) delta
  rw [Action.run, hcalls, Program.run_bind, addRound_calls]
  have hopened : ∀ k : Transaction → Int64 → Program Transaction (Except Error (Option Int64)),
      (c.opened k).run Solo.backend (.still s now) = (.error Store.lockPoisoned, .still s now) :=
    fun k => Solo.run_still (call_watch_of_poisoned hp [c.key] now)
  rw [hopened]
  rfl

theorem addAndGet_run_of_poisoned (hp : s.poisoned = true) (c : Counter) (delta : Int64)
    (now : Instant) :
    Action.run Solo.backend (c.addAndGet delta) (.still s now) =
      (.error Store.lockPoisoned, .still s now) := by
  have hcall : s.call now (.request (.increment c.key delta)) = (.error Store.lockPoisoned, s) :=
    request_of_poisoned hp (.increment c.key delta)
  have hcalls := askAndTell_calls (τ := Transaction) c (.increment c.key delta) id "add_and_get"
  exact (congrArg (Program.run Solo.backend · (.still s now)) hcalls).trans (Solo.run_still hcall)

/-! ## The comparison -/

theorem State.purge_of_live {s : State} {e : Entry} (h : s.live now key = some e) :
    s.purge key now = s := by
  refine purge_of_not_overdue ?_
  rintro ⟨e', he', hover⟩
  rw [entries_of_live h] at he'
  cases he'
  rw [not_expired_of_live h] at hover
  cases hover

/-- An operation on a key that holds an entry. -/
theorem State.follow_of_live {s : State} {e : Entry} (rule : Rule α) (max : Nat)
    (h : s.live now key = some e) :
    s.follow rule key max now = ((rule (some e) false).1, s.update key (rule (some e) false).2) := by
  rw [s.follow_eq, isFull_of_live max h, purge_of_live h, h]

/-- Where the rules of both reject what a key holds, both fail, and nothing changes. -/
theorem additions_fail {e : Entry} {native fetched : Error} (hsound : s.poisoned = false)
    (hheld : s.state.live now c.key = some e)
    (hnative : Rule.increment c.key delta (some e) false = (.error native, .keep))
    (hfetched : Rule.getAndAdd c.key delta (some e) false = (.error fetched, .keep)) :
    Action.run Solo.backend (c.addAndGet delta) (.still s now) = (.error native, .still s now) ∧
      Action.run Solo.backend (c.getAndAdd delta) (.still s now) = (.error fetched, .still s now) := by
  rw [addAndGet_run hsound, getAndAdd_run hsound, State.follow_of_live _ _ hheld,
    State.follow_of_live _ _ hheld, hnative, hfetched]
  exact ⟨rfl, rfl⟩

/-- Where an addition answers the value before, the command of the store answers the sum and leaves the
same. -/
theorem Rule.increment_of_getAndAdd {held : Option Entry} {full full' : Bool} {n : Int64}
    (h : (Rule.getAndAdd key delta held full).1 = .ok n) :
    ∃ sum, sum.toInt = n.toInt + delta.toInt ∧
      Rule.increment key delta held full' = (.ok sum, (Rule.getAndAdd key delta held full).2) := by
  rcases held with _ | ⟨b | set, until_⟩
  · cases h
  · simp only [Rule.getAndAdd, Rule.increment] at h ⊢
    cases hb : decode key b with
    | error e =>
      rw [hb] at h
      cases h
    | ok current =>
      rw [hb] at h
      dsimp only at h ⊢
      cases hsum : Numeral.sum? current delta with
      | none =>
        rw [hsum] at h
        cases h
      | some sum =>
        rw [hsum] at h
        cases h
        exact ⟨sum, toInt_of_sum? hsum, rfl⟩
  · cases h

/-- Added to zero, an amount is itself. -/
theorem sum?_zero_eq (amount : Int64) : Numeral.sum? 0 amount = some amount := by
  obtain ⟨sum, hsum⟩ := Option.isSome_iff_exists.mp (Rule.sum?_zero amount)
  have htoInt : sum.toInt = amount.toInt := (toInt_of_sum? hsum).trans (Int.zero_add _)
  rw [hsum, Int64.toInt_inj.mp htoInt]

/-- **How the two ways to add compare**, by what the key holds: what each answers, and what it leaves. -/
structure AdditionsAgree (c : Counter) (delta : Int64) (s : Store) (now : Instant)
    (native fetched : Except Error Int64 × Solo) : Prop where
  /-- Where the one answers the value before, the other answers the sum, and they leave the same. -/
  sum : ∀ n, fetched.1 = .ok n →
    ∃ sum, sum.toInt = n.toInt + delta.toInt ∧ native = (.ok sum, fetched.2)
  /-- That is where the key holds an integer and the sum fits. -/
  fits : s.poisoned = false → ∀ b until_ n, s.state.live now c.key = some ⟨.bytes b, until_⟩ →
    decode c.key b = .ok n →
    -0x8000000000000000 ≤ n.toInt + delta.toInt ∧ n.toInt + delta.toInt < 0x8000000000000000 →
    fetched = (.ok n, .still { s with
      state := s.state.put c.key ⟨.bytes (Numeral.encode (n.toInt + delta.toInt)), until_⟩ } now)
  /-- Where the sum does not fit, both fail alike and change nothing. -/
  overflow : s.poisoned = false → ∀ b until_ n, s.state.live now c.key = some ⟨.bytes b, until_⟩ →
    decode c.key b = .ok n →
    ¬ (-0x8000000000000000 ≤ n.toInt + delta.toInt ∧ n.toInt + delta.toInt < 0x8000000000000000) →
    native = (.error .overflow, .still s now) ∧ fetched = (.error .overflow, .still s now)
  /-- Where the key holds a set, too. -/
  members : s.poisoned = false → ∀ set until_, s.state.live now c.key = some ⟨.members set, until_⟩ →
    native = (.error .wrongType, .still s now) ∧ fetched = (.error .wrongType, .still s now)
  /-- Where it holds bytes that are no integer, both fail, each in its own way, and change nothing. -/
  malformed : s.poisoned = false → ∀ b until_, s.state.live now c.key = some ⟨.bytes b, until_⟩ →
    (∀ n, decode c.key b ≠ .ok n) →
    native = (.error .notAnInteger, .still s now) ∧
      fetched = (.error (.malformedInteger c.key (Utf8.decodeLossy b)), .still s now)
  /-- Where it holds nothing, one reports that, and the other makes the key if there is room. Neither does
  anything else but to purge it. -/
  absent : s.poisoned = false → s.state.live now c.key = none →
    fetched = (.error (.keyNotFound c.key), .still (s.purged c.key now) now) ∧
      native =
        if (s.state.purge c.key now).isFull c.key s.maxEntries = true then
          (.error .capacityExceeded, .still (s.purged c.key now) now)
        else
          (.ok delta, .still { s with
            state := (s.state.purge c.key now).put c.key ⟨.bytes (encode delta), none⟩ } now)
  /-- Under a poisoned lock both fail alike. -/
  poisoned : s.poisoned = true →
    native = (.error Store.lockPoisoned, .still s now) ∧
      fetched = (.error Store.lockPoisoned, .still s now)

/-- **The two ways to add agree**, for a client that has a store to itself, at one reading of the clock:
whatever the store is, the key, the amount and the policy for retries. -/
theorem additions_agree (c : Counter) (delta : Int64) (s : Store) (now : Instant) :
    AdditionsAgree c delta s now (Action.run Solo.backend (c.addAndGet delta) (.still s now))
      (Action.run Solo.backend (c.getAndAdd delta) (.still s now)) where
  sum n hn := by
    cases hp : s.poisoned with
    | true =>
      rw [getAndAdd_run_of_poisoned hp] at hn
      cases hn
    | false =>
      rw [getAndAdd_run hp] at hn ⊢
      rw [addAndGet_run hp]
      dsimp only at hn ⊢
      rw [State.follow_eq] at hn
      rw [State.follow_eq, State.follow_eq]
      obtain ⟨sum, hsum, hrule⟩ := Rule.increment_of_getAndAdd hn
      exact ⟨sum, hsum, by rw [hrule]⟩
  fits hsound b until_ n hheld hb hfits := by
    have hsum : Numeral.sum? n delta = some (.ofInt (n.toInt + delta.toInt)) := if_pos hfits
    rw [getAndAdd_run hsound, State.follow_of_live _ _ hheld, Rule.getAndAdd, hb]
    dsimp only
    rw [hsum]
    simp only [Rule.store, encode, toInt_of_sum? hsum]
    rfl
  overflow hsound b until_ n hheld hb hnot := by
    have hsum : Numeral.sum? n delta = none := if_neg hnot
    refine additions_fail hsound hheld ?_ ?_
    · simp only [Rule.increment, hb, hsum, Rule.store]
    · simp only [Rule.getAndAdd, hb, hsum, Rule.store]
      rfl
  members hsound set until_ hheld := additions_fail hsound hheld rfl rfl
  malformed hsound b until_ hheld hnot := by
    refine additions_fail hsound hheld ?_ ?_
    · simp only [Rule.increment, decode_of_ne_ok hnot]
    · simp only [Rule.getAndAdd, decode_of_ne_ok hnot]
  absent hsound hnone := by
    rw [getAndAdd_run hsound, addAndGet_run hsound, State.follow_eq, State.follow_eq, hnone]
    refine ⟨rfl, ?_⟩
    split
    · rename_i hfull
      rw [hfull]
      rfl
    · rename_i hroom
      rw [Bool.eq_false_iff.mpr hroom]
      simp only [Rule.increment, sum?_zero_eq]
      rfl
  poisoned hp := ⟨addAndGet_run_of_poisoned hp c delta now, getAndAdd_run_of_poisoned hp c delta now⟩

end WatchedStore.Memory
