import WatchedStore.Proofs.Benchmark.Contest
import WatchedStore.Proofs.Clients.Relay

/-!
# The self-check of a benchmark

A benchmark makes its counter, lets its workers contend for it, and reads it when all of them are done. It
agrees with itself if the counter holds the number of operations that were counted as successes. The calls of
the workers interleave in any way (`Finishes`), and others may do anything at any time, so long as they leave
the key alone.

**The law** (`self_check_agrees`): a benchmark that finishes agrees with itself, has counted each operation
once, and none as a failure unless its operations add in rounds.

The opening and the closing are told by their calls: the only call of the opening sets the counter to zero
(`opening_holds`), and the first call of the closing reads what the contest has left (`closing_reads`).
-/

namespace WatchedStore.Benchmark

open WatchedStore.Action WatchedStore.Counter WatchedStore.Memory

/-! ## A benchmark at large -/

/-- How a benchmark ends: it reads its counter and removes it. -/
def conclude (mode : Mode) (tally : Tally) (c : Counter) : Action τ (Option Result) := do
  let actual ← c.get
  discard (Action.request (.delete c.key))
  return some ⟨mode, tally, actual⟩

/-- **A benchmark that finishes** with a result, on a store as it is at some reading of the clock: the opening
makes the counter, all workers are done at some time, each with a tally of its own, and the end is reached.
Others leave the key alone all along. -/
inductive Finishes (settings : Settings) (mode : Mode) (runId : String) (draw : Nat → Float)
    (rounds : Nat) (t : Instant) (s : Store) (result : Result) : Prop
  | intro {c : Counter} {tallies : Fin settings.workers → Tally} {t₁ t₂ t₃ : Instant} {s₁ s₂ s₃ : Store}
    {opening closing : List (Instant × Turn Unit)}
    {contest : List (Instant × Turn (Fin settings.workers))}
    (opened : PlaysOut (key mode runId) t
      ⟨s, fun _ => ExceptT.run (prepare settings mode runId draw)⟩ opening t₁ s₁ fun _ => .ok c)
    (contended : PlaysOut (key mode runId) t₁
      ⟨s₁, fun _ => worker settings mode c rounds settings.operations {}⟩ contest t₂ s₂
      fun i => some (tallies i))
    (closed : PlaysOut (key mode runId) t₂
      ⟨s₂, fun _ => ExceptT.run (conclude mode (Tally.total tallies) c)⟩ closing t₃ s₃
      fun _ => .ok (some result))

variable {key : String} {n : Int64} {t t' : Instant} {s s' : Store}

/-! ## What a key holds around single calls -/

section Calls

variable {ι α : Type} [DecidableEq ι] {sys : System ι α} {schedule : List (Instant × Turn ι)}

/-- The first call meets the integer that a key held at first. -/
theorem first_meets (hrun : Ordered t schedule t') (hothers : sys.OthersSpare key schedule)
    (h : sys.store.state.HoldsInteger key n) :
    ∀ entry ∈ (sys.log schedule).head?, entry.2.store.state.HoldsInteger key n := by
  have hinv := System.log_invariant
    (P := fun log s => (log = [] → s.HoldsInteger key n) ∧
      ∀ entry ∈ log.head?, entry.2.store.state.HoldsInteger key n)
    hrun hothers ⟨fun _ => h, fun _ hmem => by cases hmem⟩
    (fun hlog hsame => ⟨fun hnil => (hlog.1 hnil).of_live hsame, hlog.2⟩) ?_
  · exact hinv.2
  · intro pre now t₁ i v _ _ ⟨hempty, hhead⟩
    refine ⟨fun hnil => absurd hnil (List.append_ne_nil_of_right_ne_nil _ (List.cons_ne_nil _ _)),
      fun entry hentry => ?_⟩
    cases hpre : sys.log pre with
    | nil =>
      rw [hpre] at hentry
      cases hentry
      exact hempty hpre
    | cons first rest =>
      rw [hpre] at hentry hhead
      exact hhead entry hentry

/-- The integer that the last call left under a key is there in the end. -/
theorem last_leaves (hrun : Ordered t schedule t') (hothers : sys.OthersSpare key schedule) :
    ∀ entry ∈ (sys.log schedule).getLast?, entry.2.left.state.HoldsInteger key n →
      (sys.after schedule).store.state.HoldsInteger key n := by
  refine System.log_invariant
    (P := fun log s => ∀ entry ∈ log.getLast?, entry.2.left.state.HoldsInteger key n →
      s.HoldsInteger key n)
    hrun hothers (fun _ hmem => by cases hmem)
    (fun hlog hsame entry hentry hleft => (hlog entry hentry hleft).of_live hsame) ?_
  intro pre now t₁ i v _ _ _ entry hentry hleft
  rw [List.getLast?_concat] at hentry
  cases hentry
  exact hleft

/-- The calls of a client that is the only one. -/
theorem visits_unit (sys : System Unit α) (schedule : List (Instant × Turn Unit)) :
    sys.visits () schedule = (sys.log schedule).map Prod.snd := by
  simp [System.visits, System.ofClient]

end Calls

section Single

variable {α : Type} {sys : System Unit α} {schedule : List (Instant × Turn Unit)} {store : Store}
  {results : Unit → α} {v : Visit} {rest : List Visit}

/-- The first call of a single client meets the integer that a key held at first. -/
theorem single_meets (h : PlaysOut key t sys schedule t' store results)
    (hn : sys.store.state.HoldsInteger key n) (hvisits : sys.visits () schedule = v :: rest) :
    v.store.state.HoldsInteger key n := by
  rw [visits_unit] at hvisits
  obtain ⟨entry, rest', hlog, rfl, -⟩ := List.map_eq_cons_iff.mp hvisits
  exact first_meets h.ordered h.spared hn entry (by rw [hlog]; rfl)

/-- The integer that the only call of a single client left under a key is there in the end. -/
theorem single_leaves (h : PlaysOut key t sys schedule t' store results)
    (hvisits : sys.visits () schedule = [v]) (hn : v.left.state.HoldsInteger key n) :
    store.state.HoldsInteger key n := by
  rw [visits_unit] at hvisits
  obtain ⟨entry, rest, hlog, rfl, hrest⟩ := List.map_eq_cons_iff.mp hvisits
  obtain rfl := List.map_eq_nil_iff.mp hrest
  rw [← h.left]
  exact last_leaves h.ordered h.spared entry (by rw [hlog]; rfl) hn

end Single

/-! ## The opening -/

/-- What the opening does once it has written the counter. -/
def accept (settings : Settings) (mode : Mode) (runId : String) (c : Counter) : Action τ Counter := do
  unless settings.quiet do Action.report (starting settings mode runId)
  if maxConcurrency < settings.concurrency then throw (.crash "too many operations at once")
  if maxWorkers < settings.workers then throw (.crash "too many workers")
  return c

theorem accept_ends (settings : Settings) (mode : Mode) (runId : String) (c : Counter) :
    ∃ r, Ends r (ExceptT.run (accept settings mode runId c)) ∧ ∀ c', r = .ok c' → c' = c := by
  have hchecked : ∃ r, Ends (α := Except Error Counter) r (ExceptT.run (do
      if maxConcurrency < settings.concurrency then throw (.crash "too many operations at once")
      if maxWorkers < settings.workers then throw (.crash "too many workers")
      return c)) ∧ ∀ c', r = .ok c' → c' = c := by
    by_cases hconcurrency : maxConcurrency < settings.concurrency
    · rw [if_pos hconcurrency]
      exact ⟨_, .done, fun c' h => by cases h⟩
    · rw [if_neg hconcurrency]
      by_cases hworkers : maxWorkers < settings.workers
      · rw [if_pos hworkers]
        exact ⟨_, .done, fun c' h => by cases h⟩
      · rw [if_neg hworkers]
        exact ⟨_, .done, fun c' h => by cases h; rfl⟩
  obtain ⟨r, hends, hr⟩ := hchecked
  cases hquiet : settings.quiet with
  | true =>
    unfold accept
    rw [hquiet]
    exact ⟨r, hends, hr⟩
  | false =>
    unfold accept
    rw [hquiet]
    exact ⟨r, .report hends, hr⟩

theorem create_value_calls {key : String} (hkey : key.isEmpty = false) (settings : CounterSettings)
    (value : Int64) (draw : Nat → Float) :
    ExceptT.run (Counter.create (τ := Transaction) key settings (.value value) draw) =
      .call (.request (.set key (encode value) none)) (andThen fun _ =>
        .report (operated { key, retry := settings.retry, draw } "set" value)
          (.done (.ok { key, retry := settings.retry, draw }))) := by
  unfold Counter.create
  rw [hkey]
  refine congrArg (Program.call _) (funext fun a => ?_)
  cases a <;> rfl

/-- The opening writes once, and makes no other call. -/
theorem prepare_calls (settings : Settings) {mode : Mode} {runId : String}
    (hkey : (Benchmark.key mode runId).isEmpty = false) (draw : Nat → Float) :
    ∃ r p, Ends r p ∧ (∀ c, r = .ok c → c.key = Benchmark.key mode runId) ∧
      ExceptT.run (prepare (τ := Transaction) settings mode runId draw) =
        .call (.request (.set (Benchmark.key mode runId) (encode 0) none)) (andThen fun _ => p) := by
  obtain ⟨retry, hretry⟩ : ∃ retry : RetryPolicy,
      retry = { RetryPolicy.standard with maxAttempts := settings.maxAttempts } := ⟨_, rfl⟩
  have hprepare : prepare (τ := Transaction) settings mode runId draw =
      Counter.create (Benchmark.key mode runId) { retry } (.value 0) draw >>=
        accept settings mode runId := by
    rw [hretry]
    rfl
  obtain ⟨r, hends, hr⟩ := accept_ends settings mode runId { key := Benchmark.key mode runId, retry, draw }
  refine ⟨r, .report (operated { key := Benchmark.key mode runId, retry, draw } "set" 0) _,
    .report hends, fun c hc => by rw [hr c hc], ?_⟩
  rw [hprepare, run_bind, create_value_calls hkey]
  refine congrArg (Program.call _) (funext fun a => ?_)
  cases a <;> rfl

/-- A write that is answered leaves the integer under the key. -/
theorem holds_of_set {value : Int64} {u : Unit}
    (h : (s.request t (.set key (encode value) none)).1 = .ok u) :
    (s.request t (.set key (encode value) none)).2.state.HoldsInteger key value := by
  have hrule : Rule.Decides t (.set key (encode value) none) key (Rule.set (encode value) none t) :=
    .set key (encode value) none
  cases hp : s.poisoned with
  | true =>
    rw [request_of_poisoned hp hrule] at h
    cases h
  | false =>
    rw [request_fst_of_sound hp hrule] at h
    have hput : (Rule.set (encode value) none t (s.state.live t key)
        ((s.state.purge key t).isFull key s.maxEntries)).2 = .put ⟨.bytes (encode value), none⟩ := by
      unfold Rule.set at h ⊢
      split at h
      · cases h
      · rename_i hroom
        rw [if_neg hroom]
        rfl
    have hlive := State.live_follow_put _ _ hput rfl
    rw [Store.request_eq_follow hrule, Store.locked_of_sound hp]
    exact ⟨encode value, State.entries_of_live ((congrFun hlive key).trans (if_pos rfl)),
      decode_encode key value⟩

/-- **The opening leaves the counter at zero.** -/
theorem opening_holds {settings : Settings} {mode : Mode} {runId : String} {draw : Nat → Float}
    {c : Counter} {opening : List (Instant × Turn Unit)}
    (h : PlaysOut (Benchmark.key mode runId) t
      ⟨s, fun _ => ExceptT.run (prepare settings mode runId draw)⟩ opening t' s' fun _ => .ok c) :
    c.key = Benchmark.key mode runId ∧ s'.state.HoldsInteger c.key 0 := by
  have hcourse := h.course ()
  cases hempty : (Benchmark.key mode runId).isEmpty with
  | true =>
    have hfails : ExceptT.run (prepare (τ := Transaction) settings mode runId draw) =
        .done (.error (.configuration "counter key must not be empty")) := by
      unfold prepare
      rw [run_bind, create_of_isEmpty hempty]
      rfl
    rw [hfails] at hcourse
    cases hcourse.done_inv.2
  | false =>
    obtain ⟨r, p, hends, hkey, hprepare⟩ := prepare_calls settings hempty draw
    generalize hvisits : System.visits _ () opening = visits at hcourse
    rw [hprepare] at hcourse
    rcases hcourse.call_inv with ⟨-, hp⟩ | ⟨t₁, s₁, rest, -, rfl, hrest⟩
    · cases hp
    cases hanswer : (s₁.request t₁ (.set (Benchmark.key mode runId) (encode 0) none)).1 with
    | error e =>
      simp only [Store.call, hanswer] at hrest
      cases hrest.done_inv.2
    | ok u =>
      simp only [Store.call, hanswer] at hrest
      obtain ⟨rfl, hresult⟩ := hends.course hrest
      rw [hkey c (hresult _ rfl).symm]
      exact ⟨rfl, single_leaves h hvisits (holds_of_set hanswer)⟩

/-! ## The end -/

/-- How the end goes on from what was read. -/
def afterReading (mode : Mode) (tally : Tally) (c : Counter) :
    Except Error Int64 → Program τ (Except Error (Option Result))
  | .ok actual => .call (.request (.delete c.key)) (andThen fun _ => .done (.ok (some ⟨mode, tally, actual⟩)))
  | .error e => .done (.error e)

theorem conclude_calls (mode : Mode) (tally : Tally) (c : Counter) :
    ExceptT.run (conclude (τ := Transaction) mode tally c) =
      .call (.request (.get c.key)) fun a => afterReading mode tally c (a.bind c.ofStored) := by
  refine congrArg (Program.call _) (funext fun a => ?_)
  have hread : ∀ r : Except Error Int64,
      ExceptT.run (do
        let actual ← ofExcept r
        discard (Action.request (.delete c.key))
        return some ⟨mode, tally, actual⟩) = afterReading (τ := Transaction) mode tally c r := by
    intro r
    cases r with
    | error e => rfl
    | ok actual =>
      refine congrArg (Program.call _) (funext fun a => ?_)
      cases a <;> rfl
  cases a with
  | error e => rfl
  | ok stored => exact hread (c.ofStored stored)

/-- **The end reads what the counter holds**, under a lock that has been sound up to then. -/
theorem closing_reads {mode : Mode} {tally : Tally} {c : Counter} {result : Result}
    {closing : List (Instant × Turn Unit)} (hn : s.state.HoldsInteger c.key n)
    (h : PlaysOut c.key t ⟨s, fun _ => ExceptT.run (conclude mode tally c)⟩ closing t' s'
      fun _ => .ok (some result)) : s.poisoned = false ∧ result = ⟨mode, tally, n⟩ := by
  have hcourse := h.course ()
  generalize hvisits : System.visits _ () closing = visits at hcourse
  rw [conclude_calls] at hcourse
  rcases hcourse.call_inv with ⟨-, hp⟩ | ⟨t₁, s₁, rest, hreach, rfl, hrest⟩
  · cases hp
  obtain ⟨b, hentry, hb⟩ : s₁.state.HoldsInteger c.key n := single_meets h hn hvisits
  change Course t' s' _ t₁ _ (afterReading mode tally c
    ((s₁.call t₁ (.txGet ⟨[]⟩ c.key)).1.bind c.ofStored)) rest at hrest
  cases hp : s₁.poisoned with
  | true =>
    rw [call_txGet_of_poisoned hp] at hrest
    cases hrest.done_inv.2
  | false =>
    refine ⟨hreach.sound hp, ?_⟩
    have hread : (s₁.call t₁ (.txGet ⟨[]⟩ c.key)).1.bind c.ofStored = .ok n := by
      rw [call_txGet_of_sound hp, State.live_of_forever hentry]
      exact hb
    rw [hread] at hrest
    rcases hrest.call_inv with ⟨-, hp⟩ | ⟨t₂, s₂, rest, -, -, hrest⟩
    · cases hp
    cases hanswer : (s₂.request t₂ (.delete c.key)).1 with
    | error e =>
      simp only [Store.call, hanswer] at hrest
      cases hrest.done_inv.2
    | ok removed =>
      simp only [Store.call, hanswer] at hrest
      cases hrest.done_inv.2
      rfl

/-! ## The self-check -/

/-- **A benchmark that finishes agrees with itself.** Let its workers have fewer operations in all than 64
bits can count, in any way to add, with any number of workers, operations and attempts and any limits, and
let their calls interleave in any way, among deeds of others that leave the key alone. If the benchmark comes
to a result, each operation was counted once, as a success or as a failure, and the value read in the end is
the number of successes; and no operation has failed that adds by a request or by swapping. -/
theorem self_check_agrees {settings : Settings} {mode : Mode} {runId : String} {draw : Nat → Float}
    {rounds : Nat} {result : Result} (hs : Reachable t s)
    (hfits : settings.workers * settings.operations < 0x8000000000000000)
    (h : Finishes settings mode runId draw rounds t s result) :
    result.tally.completed + result.tally.failed = settings.workers * settings.operations ∧
      result.actual.toInt = result.tally.completed ∧ result.expected = result.actual ∧
      (mode ≠ .getAndAdd → result.tally.failed = 0) := by
  obtain @⟨c, tallies, t₁, t₂, t₃, s₁, s₂, s₃, opening, closing, contest, hopened, hcontended, hclosed⟩ := h
  obtain ⟨hkey, hzero⟩ := opening_holds hopened
  rw [← hkey] at hcontended hclosed
  have hcontest : Contest settings mode c rounds
      ⟨s₁, fun _ => worker settings mode c rounds settings.operations {}⟩ :=
    ⟨(hopened.course ()).reaches.wellFormed hs.wellFormed, fun _ => rfl, hzero, hfits⟩
  obtain ⟨⟨n, hn, hcompleted⟩, hall, hfailed⟩ :=
    hcontest.settled hcontended.ordered hcontended.spared hcontended.done
  rw [hcontended.left] at hn hfailed
  obtain ⟨hsound, rfl⟩ := closing_reads hn hclosed
  have hlt : (Tally.total tallies).completed < 0x8000000000000000 := by omega
  have hexpected : (Int64.ofNat (Tally.total tallies).completed).toInt = n.toInt :=
    (Int64.toInt_ofNat_of_lt hlt).trans hcompleted.symm
  exact ⟨hall, hcompleted, Int64.toInt_inj.mp hexpected, fun hmode => hfailed hmode hsound⟩

/-! ## Two workers that swap at once -/

/-- The result of a program that has nothing left to do. -/
def result? : Program τ α → Option α
  | .done r => some r
  | _ => none

theorem done_of_result? {p : Program τ α} {r : α} (h : result? p = some r) : p = .done r := by
  cases p with
  | done r' =>
    cases h
    rfl
  | _ => cases h

deriving instance DecidableEq for Result

namespace Miss

def settings : Settings := { workers := 2, operations := 1, quiet := true }

def counter : Counter where
  key := Benchmark.key .swapLoop "r"
  retry := { RetryPolicy.standard with maxAttempts := 64 }
  draw _ := 1.0

def made : System Unit (Except Error Counter) where
  store := { maxEntries := 2 }
  program _ := ExceptT.run (prepare settings .swapLoop "r" fun _ => 1.0)

def opening : List (Instant × Turn Unit) := [(0, .client ()), (1, .client ()), (1, .other .cleanUp)]

def contending : System (Fin 2) (Option Tally) where
  store := (made.after opening).store
  program _ := worker settings .swapLoop counter 2 1 {}

/-- The first worker reads, and the second one is done before it swaps; so it misses, and swaps again. -/
def contest : List (Instant × Turn (Fin 2)) :=
  ([0, 1, 1, 1, 1, 1].map fun i => (1, .client i)) ++ [(1, .other .cleanUp)] ++
    [0, 0, 0, 0, 0, 0, 0, 0, 0].map fun i => (2, .client i)

def tallies : Fin 2 → Tally
  | 0 => ⟨1, 0, 1⟩
  | 1 => ⟨1, 0, 0⟩

def read : System Unit (Except Error (Option Result)) where
  store := (contending.after contest).store
  program _ := ExceptT.run (conclude .swapLoop (Tally.total tallies) counter)

def closing : List (Instant × Turn Unit) := [(2, .client ()), (3, .client ())]

def result : Result := ⟨.swapLoop, ⟨2, 0, 1⟩, 2⟩

theorem opened : PlaysOut counter.key 0 made opening 1 (made.after opening).store fun _ => .ok counter where
  ordered := by simp [opening, Ordered]
  spared := ⟨congrFun (live_cleanUp _ 1) counter.key, trivial⟩
  left := rfl
  done _ := rfl

theorem contended : PlaysOut counter.key 1 contending contest 2 (contending.after contest).store
    fun i => some (tallies i) where
  ordered := by simp [contest, Ordered]
  spared := ⟨congrFun (live_cleanUp _ 1) counter.key, trivial⟩
  left := rfl
  done i := done_of_result? (by revert i; decide +kernel)

theorem closed : PlaysOut counter.key 2 read closing 3 (read.after closing).store
    fun _ => .ok (some result) where
  ordered := by simp [closing, Ordered]
  spared := trivial
  left := rfl
  done | () => done_of_result? (by decide +kernel)

end Miss

/-- Two workers swap at once, while somebody else cleans up. -/
theorem self_check_agrees_miss :
    Finishes Miss.settings .swapLoop "r" (fun _ => 1.0) 2 0 { maxEntries := 2 } Miss.result ∧
      Miss.result.expected = Miss.result.actual := by
  have hfinishes : Finishes Miss.settings .swapLoop "r" (fun _ => 1.0) 2 0 { maxEntries := 2 } Miss.result :=
    .intro Miss.opened Miss.contended Miss.closed
  exact ⟨hfinishes, (self_check_agrees ⟨2, .refl⟩ (by decide) hfinishes).2.2.1⟩

end WatchedStore.Benchmark
