import WatchedStore.Counter.Basic

/-!
# Counters, call by call

An action that may fail is a program whose result is an error or a value. Here the rounds of a counter are
written out as programs: which calls they make, and how they go on by the answers. The texts of what they
report are left open, since no store sees them.
-/

namespace WatchedStore

namespace Action

/-- What follows an action: another one, unless it failed. -/
def andThen (f : α → Program τ (Except Error β)) : Except Error α → Program τ (Except Error β)
  | .ok a => f a
  | .error e => .done (.error e)

theorem run_bind (x : Action τ α) (f : α → Action τ β) :
    ExceptT.run (x >>= f) = (ExceptT.run x).bind (andThen fun a => ExceptT.run (f a)) := by
  refine congrArg (Program.bind (ExceptT.run x)) (funext fun a => ?_)
  cases a <;> rfl

theorem run_after_ofExcept (r : Except Error α) (k : Action τ β) :
    ExceptT.run (do discard (ofExcept r); k) = andThen (fun _ => ExceptT.run k) r := by
  cases r <;> rfl

theorem run_map (f : α → β) (x : Action τ α) :
    ExceptT.run (f <$> x) = (ExceptT.run x).bind fun r => .done (r.map f) := by
  refine congrArg (Program.bind (ExceptT.run x)) (funext fun r => ?_)
  cases r <;> rfl

end Action

namespace Counter

open WatchedStore.Action

theorem get_calls (c : Counter) :
    ExceptT.run (c.get (τ := τ)) = .call (.request (.get c.key)) fun a => .done (a.bind c.ofStored) := by
  refine congrArg (Program.call _) (funext fun a => ?_)
  cases a <;> rfl

/-- One request, and a report of the integer that it was answered by. -/
def askAndTell (c : Counter) (r : Request) (value : r.Answer → Int64) (operation : String) :
    Action τ Int64 := do
  let answer ← Action.request r
  Action.report (c.operated operation (value answer))
  return value answer

theorem askAndTell_calls (c : Counter) (r : Request) (value : r.Answer → Int64) (operation : String) :
    ExceptT.run (c.askAndTell (τ := τ) r value operation) =
      .call (.request r) (andThen fun answer =>
        .report (c.operated operation (value answer)) (.done (.ok (value answer)))) := by
  refine congrArg (Program.call _) (funext fun a => ?_)
  cases a <;> rfl

/-- What a construction does where there is nothing. -/
def setToZero (c : Counter) : Action τ Counter := do
  Action.report ⟨.debug, source, "Counter key absent, initializing to 0", [("key", .bare c.key)]⟩
  c.set 0
  return c

/-- A construction asks what is there, and writes only if there is nothing. -/
theorem create_calls {key : String} (hkey : key.isEmpty = false) (settings : CounterSettings)
    (draw : Nat → Float) :
    ExceptT.run (create (τ := τ) key settings .existingOrZero draw) =
      .call (.request (.get key)) (andThen fun
        | some _ => .done (.ok { key, retry := settings.retry, draw })
        | none => ExceptT.run (setToZero { key, retry := settings.retry, draw })) := by
  unfold create
  rw [hkey]
  refine congrArg (Program.call _) (funext fun a => ?_)
  rcases a with e | _ | b <;> rfl

theorem create_of_isEmpty {key : String} (hkey : key.isEmpty = true) (settings : CounterSettings)
    (init : Initialization) (draw : Nat → Float) :
    ExceptT.run (create (τ := τ) key settings init draw) =
      .done (.error (.configuration "counter key must not be empty")) := by
  unfold create
  rw [hkey]
  rfl

/-- What a read under a watch leads to: if there is no integer, the transaction is given up. -/
def afterRead (tx : τ) : Except Error Int64 → Program τ (Except Error Int64)
  | .ok n => .done (.ok n)
  | .error e => .call (.discard tx) fun _ => .done (.error e)

theorem readWatched_calls (c : Counter) (tx : τ) :
    ExceptT.run (c.readWatched tx) =
      .call (.txGet tx c.key) fun a => afterRead tx (a.bind c.ofStored) := by
  refine congrArg (Program.call _) (funext fun a => ?_)
  have hread : ∀ r : Except Error Int64,
      ExceptT.run (match r with
        | .ok n => return n
        | .error e => do
          callIgnoring (.discard tx)
          throw e) = afterRead tx r := by
    intro r
    cases r <;> rfl
  cases a with
  | error e => rfl
  | ok stored => exact hread (c.ofStored stored)

/-- What a commit of a round leads to: one end if it was carried out with every command, another if it
was refused. -/
def afterCommit (carriedOut refused : Program τ (Except Error α)) :
    Except Error (Option (List Reply)) → Program τ (Except Error α) :=
  andThen fun
    | some replies => andThen (fun _ => carriedOut) (Reply.check replies)
    | none => refused

/-- What a round does once it has opened its transaction and read an integer. -/
def opened (c : Counter) (k : τ → Int64 → Program τ (Except Error α)) : Program τ (Except Error α) :=
  .call (.watch [c.key]) (andThen fun tx => (ExceptT.run (c.readWatched tx)).bind (andThen (k tx)))

/-- One attempt to add. -/
theorem addRound_calls (c : Counter) (delta : Int64) :
    ExceptT.run (c.addRound (τ := τ) delta) = c.opened fun tx previous =>
      .call (.exec tx [.increment c.key delta])
        (afterCommit (.report (c.operated "get_and_add" previous) (.done (.ok (some previous))))
          (.done (.ok none))) := by
  refine congrArg (Program.call _) (funext fun a => ?_)
  cases a with
  | error e => rfl
  | ok tx =>
    refine congrArg (Program.bind (ExceptT.run (c.readWatched (tx : τ)))) (funext fun n => ?_)
    cases n with
    | error e => rfl
    | ok previous =>
      refine congrArg (Program.call _) (funext fun a => ?_)
      cases a with
      | error e => rfl
      | ok answer =>
        cases answer with
        | none => rfl
        | some replies => exact run_after_ofExcept ..

/-- An attempt to swap: it gives up at a value that is not the expected one. -/
theorem compareAndSet_calls (c : Counter) (expect update : Int64) :
    ∃ (different : Int64 → Event) (refused : Event),
      ExceptT.run (c.compareAndSet (τ := τ) expect update) = c.opened fun tx current =>
        if current != expect then
          .call (.discard tx) (andThen fun _ => .report (different current) (.done (.ok false)))
        else
          .call (.exec tx [.set c.key (encode update) none])
            (afterCommit (.report (c.operated "compare_and_set" update) (.done (.ok true)))
              (.report refused (.done (.ok false)))) := by
  refine ⟨fun current =>
      ⟨.debug, source, "compare-and-set value mismatch",
        [("key", .bare c.key), ("expect", .bare (Numeral.text expect.toInt)),
          ("current", .bare (Numeral.text current.toInt))]⟩,
    ⟨.debug, source, "compare-and-set aborted by a concurrent write",
      [("key", .bare c.key), ("expect", .bare (Numeral.text expect.toInt)),
        ("update", .bare (Numeral.text update.toInt))]⟩,
    congrArg (Program.call _) (funext fun a => ?_)⟩
  cases a with
  | error e => rfl
  | ok tx =>
    refine congrArg (Program.bind (ExceptT.run (c.readWatched (tx : τ)))) (funext fun n => ?_)
    cases n with
    | error e => rfl
    | ok current =>
      refine (apply_ite ExceptT.run _ _ _).trans (congr (congrArg _ ?_) ?_)
      · refine congrArg (Program.call _) (funext fun a => ?_)
        cases a <;> rfl
      · refine congrArg (Program.call _) (funext fun a => ?_)
        cases a with
        | error e => rfl
        | ok answer =>
          cases answer with
          | none => rfl
          | some replies => exact run_after_ofExcept ..

/-- **Behind an attempt to add stands a backoff**: if it hands out a delay, another attempt follows, and if
not, the addition gives up with the number of attempts that were counted. -/
theorem addRounds_calls (c : Counter) (delta : Int64) (b : Backoff) :
    ExceptT.run (c.addRounds (τ := τ) delta b) =
      (ExceptT.run (c.addRound delta)).bind (andThen fun
        | some previous => .done (.ok previous)
        | none =>
          match b.next (c.draw (b.attempts + 1)) with
          | (some delay, counted) =>
            .report (c.retrying counted delay) (.pause delay (ExceptT.run (c.addRounds delta counted)))
          | (none, counted) =>
            .report (c.gaveUp counted) (.done (.error (.transactionAborted c.key counted.attempts)))) := by
  rw [addRounds, run_bind]
  refine congrArg (Program.bind _) (congrArg andThen (funext fun answer => ?_))
  cases answer with
  | some previous => rfl
  | none =>
    dsimp only
    split <;> rename_i hnext <;> simp only [hnext] <;> rfl

/-- Whatever comes behind a refused attempt, the first attempt comes first. -/
theorem getAndAdd_calls (c : Counter) (delta : Int64) :
    ∃ refused : Program τ (Except Error Int64),
      ExceptT.run (c.getAndAdd delta) = (ExceptT.run (c.addRound delta)).bind (andThen fun
        | some previous => .done (.ok previous)
        | none => refused) :=
  ⟨_, c.addRounds_calls delta ⟨c.retry, 0⟩⟩

end Counter

end WatchedStore
