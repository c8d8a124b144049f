import WatchedStore.Proofs.Benchmark.SelfCheck

/-!
# Workers in succession

`Benchmark.run` makes the counter, lets one worker act after the other on a common tally, and reads the
counter in the end. This is one of the ways in which a benchmark can finish: its workers share the store, and
each starts when the one before it is done.

**The law** (`run_finishes`): wherever the program comes to a result, among others who leave its key alone,
a benchmark finishes with this result. So what is said of benchmarks that finish (`Finishes`) is said of the
program, in particular on a host (`run_on_host_finishes`).

That a worker adds to a common tally makes no difference: it does what it does with a tally of its own, and
the tallies are taken together (`worker_eq_plus`). The induction is on the workers that are left
(`allWorkers_playsOut`).
-/

namespace WatchedStore.Benchmark

open WatchedStore.Action WatchedStore.Counter WatchedStore.Memory

variable {settings : Settings} {mode : Mode} {c : Counter} {rounds : Nat} {key : String}
  {t t' : Instant} {s s' : Store}

/-! ## Tallies -/

/-- Two tallies, taken together. -/
def Tally.plus (tally other : Tally) : Tally where
  completed := tally.completed + other.completed
  failed := tally.failed + other.failed
  misses := tally.misses + other.misses

namespace Tally

theorem plus_assoc (first second third : Tally) :
    (first.plus second).plus third = first.plus (second.plus third) := by
  simp only [plus, Nat.add_assoc]

theorem empty_plus (tally : Tally) : Tally.plus {} tally = tally := by
  simp only [plus, Nat.zero_add]

/-- An operation is added to a tally as to an empty one. -/
theorem add_eq_plus (tally : Tally) (a : Attempt) : tally.add a = tally.plus (Tally.add {} a) := by
  unfold add
  cases a.result <;> simp [plus]

/-- What a worker and those that follow it contribute. -/
theorem sumOver_cons {n : Nat} (share : Tally → Nat) (first : Tally) (others : Fin n → Tally) :
    sumOver (fun i => share ((Fin.cons first others : Fin (n + 1) → Tally) i)) (List.finRange (n + 1)) =
      share first + sumOver (fun i => share (others i)) (List.finRange n) := by
  have hrest (clients : List (Fin n)) :
      sumOver (fun i => share ((Fin.cons first others : Fin (n + 1) → Tally) i)) (clients.map Fin.succ) =
        sumOver (fun i => share (others i)) clients := by
    induction clients with
    | nil => rfl
    | cons i rest ih =>
      rw [List.map_cons, sumOver, ih, sumOver, Fin.cons_succ]
  rw [List.finRange_succ, sumOver, hrest, Fin.cons_zero]

/-- The tallies of a worker and of those that follow it. -/
theorem total_cons {n : Nat} (first : Tally) (others : Fin n → Tally) :
    total (Fin.cons first others : Fin (n + 1) → Tally) = first.plus (total others) := by
  simp only [total, plus, sumOver_cons]

end Tally

/-! ## One worker -/

/-- **A worker adds to a tally what it would count from nothing.** -/
theorem worker_eq_plus (settings : Settings) (mode : Mode) (c : Counter) (rounds operations : Nat)
    (tally : Tally) :
    worker (τ := Transaction) settings mode c rounds operations tally =
      (worker settings mode c rounds operations {}).bind fun counted =>
        .done (counted.map tally.plus) := by
  induction operations generalizing tally with
  | zero => rfl
  | succ operations ih =>
    rw [worker_succ, worker_succ, Program.bind_assoc]
    refine congrArg (Program.bind (mode.operation c rounds)) (funext fun r => ?_)
    cases r with
    | none => rfl
    | some a =>
      have hrest : worker (τ := Transaction) settings mode c rounds operations (tally.add a) =
          (worker settings mode c rounds operations (Tally.add {} a)).bind fun counted =>
            .done (counted.map tally.plus) := by
        rw [ih (tally.add a), ih (Tally.add {} a), Program.bind_assoc]
        refine congrArg (Program.bind _) (funext fun counted => ?_)
        cases counted with
        | none => rfl
        | some own => simp only [Program.bind, Option.map_some, tally.add_eq_plus, Tally.plus_assoc]
      obtain ⟨result, misses⟩ := a
      cases result with
      | ok u => exact hrest
      | error e =>
        unfold afterOperation
        dsimp only
        by_cases hquiet : settings.quiet = true
        · rw [if_pos hquiet, if_pos hquiet]
          exact hrest
        · rw [if_neg hquiet, if_neg hquiet]
          exact congrArg (Program.report (failure e)) hrest

/-! ## All workers -/

/-- How the workers that are left go on from the tally of the one before them. -/
def afterWorker (settings : Settings) (mode : Mode) (c : Counter) (rounds workers : Nat) :
    Option Tally → Program τ (Option Tally)
  | none => .done none
  | some tally => allWorkers settings mode c rounds workers tally

theorem allWorkers_succ (settings : Settings) (mode : Mode) (c : Counter) (rounds workers : Nat)
    (tally : Tally) :
    allWorkers (τ := Transaction) settings mode c rounds (workers + 1) tally =
      (worker settings mode c rounds settings.operations tally).bind
        (afterWorker settings mode c rounds workers) := by
  refine congrArg (Program.bind _) (funext fun r => ?_)
  cases r <;> rfl

/-- **Workers one after the other are workers that share the store**, each with a tally of its own. -/
theorem allWorkers_playsOut {workers : Nat} {tally all : Tally} {schedule : List (Instant × Turn Unit)}
    (h : PlaysOut key t ⟨s, fun _ => allWorkers settings mode c rounds workers tally⟩ schedule t' s'
      fun _ => some all) :
    ∃ (tallies : Fin workers → Tally) (contest : List (Instant × Turn (Fin workers))),
      all = tally.plus (Tally.total tallies) ∧
        PlaysOut key t ⟨s, fun _ => worker settings mode c rounds settings.operations {}⟩ contest t' s'
          fun i => some (tallies i) := by
  induction workers generalizing t s tally schedule with
  | zero =>
    cases PlaysOut.done_inv h
    let nobody : Fin 0 → Tally := fun i => i.elim0
    obtain ⟨others, hothers⟩ := PlaysOut.vacate h
      (fun _ => worker settings mode c rounds settings.operations {}) fun i => some (nobody i)
    exact ⟨nobody, others, rfl, hothers⟩
  | succ workers ih =>
    rw [allWorkers_succ, worker_eq_plus, Program.bind_assoc] at h
    obtain ⟨own?, pre, post, t₁, s₁, hown, hothers⟩ := h.bind_inv
    cases own? with
    | none => cases PlaysOut.done_inv hothers
    | some own =>
      obtain ⟨tallies, contest, rfl, hcontest⟩ := ih hothers
      have hboth := hown.hand_over hcontest
      have hprograms : (Fin.cons (worker settings mode c rounds settings.operations {}) fun _ =>
          worker settings mode c rounds settings.operations {} :
            Fin (workers + 1) → Program Transaction (Option Tally)) =
          fun _ => worker settings mode c rounds settings.operations {} :=
        funext (Fin.cases rfl fun _ => rfl)
      have hresults : (Fin.cons (some own) fun i => some (tallies i) : Fin (workers + 1) → Option Tally) =
          fun i => some ((Fin.cons own tallies : Fin (workers + 1) → Tally) i) :=
        funext (Fin.cases rfl fun _ => rfl)
      rw [hprograms, hresults] at hboth
      exact ⟨Fin.cons own tallies, _, by rw [Tally.total_cons, Tally.plus_assoc], hboth⟩

/-! ## The whole program -/

/-- **A benchmark is its opening, its workers, and its end.** -/
theorem run_eq (settings : Settings) (mode : Mode) (runId : String) (draw : Nat → Float) (rounds : Nat) :
    run (τ := τ) settings mode runId draw rounds = (do
      let c ← prepare settings mode runId draw
      match ← ExceptT.lift (allWorkers settings mode c rounds settings.workers {}) with
      | none => return none
      | some tally => conclude mode tally c) := by
  refine congrArg (prepare settings mode runId draw >>= ·) (funext fun c => ?_)
  refine congrArg (ExceptT.lift (allWorkers settings mode c rounds settings.workers {}) >>= ·)
    (funext fun tally? => ?_)
  cases tally? <;> rfl

/-- How the program goes on when all workers are done. -/
def afterWorkers (mode : Mode) (c : Counter) : Option Tally → Program τ (Except Error (Option Result))
  | none => .done (.ok none)
  | some tally => ExceptT.run (conclude mode tally c)

theorem run_calls (settings : Settings) (mode : Mode) (runId : String) (draw : Nat → Float)
    (rounds : Nat) :
    ExceptT.run (run (τ := Transaction) settings mode runId draw rounds) =
      (ExceptT.run (prepare settings mode runId draw)).bind (andThen fun c =>
        (allWorkers settings mode c rounds settings.workers {}).bind (afterWorkers mode c)) := by
  rw [run_eq, run_bind]
  refine congrArg (Program.bind _) (congrArg andThen (funext fun c => ?_))
  have hlift : ExceptT.run (ExceptT.lift (allWorkers (τ := Transaction) settings mode c rounds
      settings.workers {}) : Action Transaction (Option Tally)) =
      (allWorkers settings mode c rounds settings.workers {}).bind fun r => .done (.ok r) := rfl
  rw [run_bind, hlift, Program.bind_assoc]
  refine congrArg (Program.bind _) (funext fun r => ?_)
  cases r <;> rfl

/-- **A run of the program is a benchmark that finishes**, whatever others do besides. -/
theorem run_finishes {runId : String} {draw : Nat → Float} {result : Result}
    {schedule : List (Instant × Turn Unit)}
    (h : PlaysOut (Benchmark.key mode runId) t
      ⟨s, fun _ => ExceptT.run (run settings mode runId draw rounds)⟩ schedule t' s'
      fun _ => .ok (some result)) :
    Finishes settings mode runId draw rounds t s result := by
  rw [run_calls] at h
  obtain ⟨made, opening, _, t₁, s₁, hopened, hrest⟩ := h.bind_inv
  cases made with
  | error e => cases hrest.done_inv
  | ok c =>
    obtain ⟨counted, _, closing, t₂, s₂, hworkers, hclosed⟩ := PlaysOut.bind_inv hrest
    cases counted with
    | none => cases PlaysOut.done_inv hclosed
    | some all =>
      obtain ⟨tallies, contest, rfl, hcontended⟩ := allWorkers_playsOut hworkers
      rw [Tally.empty_plus] at hclosed
      exact .intro hopened hcontended hclosed

/-- **A run on a host is a benchmark that finishes.** -/
theorem run_on_host_finishes {runId : String} {draw : Nat → Float} {result : Result} {h : Host}
    (hresult : (Action.run Host.backend (run settings mode runId draw rounds) h).1 = .ok (some result)) :
    Finishes settings mode runId draw rounds h.now h.store result := by
  obtain ⟨schedule, hplays⟩ := Host.run_playsOut (Benchmark.key mode runId)
    (ExceptT.run (run settings mode runId draw rounds)) h
  exact run_finishes (hresult ▸ hplays)

end WatchedStore.Benchmark
