import Mathlib.Data.List.FinRange
import WatchedStore.Proofs.Benchmark.Worker
import WatchedStore.Proofs.Clients.Schedule

/-!
# Workers in contest

All workers of a benchmark add to one counter at once, in any interleaving of their calls, and others leave
its key alone. How many operations may be under way at once only limits the interleavings.

**The invariant** (`Contest.counted`): at every moment the key holds how often one was added so far. That is
less than the number of all operations as long as any worker makes another call, so there is always room for
one more.

**The law** (`Contest.settled`): when all workers are done, the key holds the number of all operations that
they have counted as successes, and each operation has been counted once. Unless they add in rounds, none
has been counted as a failure.
-/

namespace WatchedStore.Benchmark

open WatchedStore.Counter WatchedStore.Memory

/-! ## Sums over clients -/

section Sum

variable {ι : Type}

/-- The sum of what clients contribute. -/
def sumOver (share : ι → Nat) : List ι → Nat
  | [] => 0
  | i :: rest => share i + sumOver share rest

variable {share other : ι → Nat} {clients : List ι} {most : Nat}

theorem sumOver_add (share other : ι → Nat) (clients : List ι) :
    sumOver (fun i => share i + other i) clients = sumOver share clients + sumOver other clients := by
  induction clients with
  | nil => rfl
  | cons i rest ih =>
    simp only [sumOver, ih]
    omega

theorem sumOver_eq (h : ∀ i, share i = most) (clients : List ι) :
    sumOver share clients = clients.length * most := by
  induction clients with
  | nil => exact (Nat.zero_mul most).symm
  | cons i rest ih => rw [sumOver, h, ih, List.length_cons, Nat.succ_mul, Nat.add_comm]

theorem sumOver_congr (h : ∀ i ∈ clients, share i = other i) :
    sumOver share clients = sumOver other clients := by
  induction clients with
  | nil => rfl
  | cons i rest ih =>
    obtain ⟨hi, hrest⟩ := List.forall_mem_cons.mp h
    rw [sumOver, hi, ih hrest, sumOver]

theorem sumOver_le (h : ∀ i, share i ≤ most) (clients : List ι) :
    sumOver share clients ≤ clients.length * most := by
  induction clients with
  | nil => exact Nat.zero_le _
  | cons i rest ih =>
    have hi := h i
    rw [sumOver, List.length_cons, Nat.succ_mul]
    omega

/-- Shares do not use up what is set aside for them if one of them does not. -/
theorem sumOver_lt (h : ∀ i, share i ≤ most) {j : ι} (hj : share j < most) (hmem : j ∈ clients) :
    sumOver share clients < clients.length * most := by
  induction clients with
  | nil => cases hmem
  | cons i rest ih =>
    rw [sumOver, List.length_cons, Nat.succ_mul]
    rcases List.mem_cons.mp hmem with rfl | hrest
    · have hle := sumOver_le h rest
      omega
    · have hlt := ih hrest
      have hi := h i
      omega

theorem sumOver_single [DecidableEq ι] (hnodup : clients.Nodup) {j : ι} (hj : j ∈ clients) (n : Nat) :
    sumOver (fun i => if j = i then n else 0) clients = n := by
  induction clients with
  | nil => cases hj
  | cons i rest ih =>
    obtain ⟨hnot, hrest⟩ := List.nodup_cons.mp hnodup
    rw [sumOver]
    by_cases hi : j = i
    · subst hi
      have hzero : ∀ k ∈ rest, (if j = k then n else 0) = 0 := fun k hk =>
        if_neg fun heq : j = k => hnot (heq ▸ hk)
      rw [if_pos rfl, sumOver_congr hzero, sumOver_eq (fun _ => rfl) rest, Nat.mul_zero, Nat.add_zero]
    · rw [if_neg hi, Nat.zero_add, ih hrest ((List.mem_cons.mp hj).resolve_left hi)]

end Sum

/-- The tallies of all workers, taken together. -/
def Tally.total {n : Nat} (tallies : Fin n → Tally) : Tally where
  completed := sumOver (fun i => (tallies i).completed) (List.finRange n)
  failed := sumOver (fun i => (tallies i).failed) (List.finRange n)
  misses := sumOver (fun i => (tallies i).misses) (List.finRange n)

/-! ## The calls of all workers -/

section Log

variable {n : Nat} {mode : Mode} {log : List (Fin n × Visit)} {i : Fin n} {v : Visit}

/-- **How often one was added** is the sum of how often each client has added. -/
theorem score_log (mode : Mode) (log : List (Fin n × Visit)) :
    mode.score (log.map Prod.snd) =
      sumOver (fun i => mode.score (System.ofClient i log)) (List.finRange n) := by
  induction log with
  | nil => exact (Nat.mul_zero _).symm.trans (sumOver_eq (fun _ => score_nil mode) _).symm
  | cons entry rest ih =>
    obtain ⟨j, v⟩ := entry
    have hshare : ∀ i, mode.score (System.ofClient i ((j, v) :: rest)) =
        (if j = i then mode.score [v] else 0) + mode.score (System.ofClient i rest) := by
      intro i
      by_cases hj : j = i
      · simp [System.ofClient, hj, Mode.score, List.countP_cons, Nat.add_comm]
      · simp [System.ofClient, hj, Mode.score]
    rw [sumOver_congr fun i _ => hshare i, sumOver_add,
      sumOver_single (List.nodup_finRange n) (List.mem_finRange j), ← ih, List.map_cons,
      List.singleton_append.symm, score_append]

end Log

/-! ## The contest -/

/-- **Workers that share a counter**: so many operations each, none carried out yet. -/
structure Contest (settings : Settings) (mode : Mode) (c : Counter) (rounds : Nat)
    (sys : System (Fin settings.workers) (Option Tally)) : Prop where
  wellFormed : sys.store.WellFormed
  programs : ∀ i, sys.program i = worker settings mode c rounds settings.operations {}
  zero : sys.store.state.HoldsInteger c.key 0
  fits : settings.workers * settings.operations < 0x8000000000000000

/-- **What holds of all calls so far and of the store**: the key holds how often one was added, and every
call met an integer with room for one more. -/
structure Counted (mode : Mode) (key : String) (log : List (ι × Visit)) (s : State) : Prop where
  held : ∃ n, s.HoldsInteger key n ∧ n.toInt = mode.score (log.map Prod.snd)
  met : ∀ entry ∈ log, ∃ n, entry.2.store.state.HoldsInteger key n ∧ n.toInt < 0x7FFFFFFFFFFFFFFF

theorem Counted.of_live {mode : Mode} {key : String} {log : List (ι × Visit)} {s s' : State}
    {now : Instant} (h : Counted mode key log s) (hsame : s'.live now key = s.live now key) :
    Counted mode key log s' := by
  obtain ⟨n, hn, hscore⟩ := h.held
  exact ⟨⟨n, hn.of_live hsame, hscore⟩, h.met⟩

/-- A call keeps the count, where there is room for one more. -/
theorem Counted.call {mode : Mode} {key : String} {log : List (ι × Visit)} {i : ι} {v : Visit}
    (h : Counted mode key log v.store.state) (hv : Misses mode key v ∨ Scores mode key v)
    (hroom : mode.score (log.map Prod.snd) < 0x7FFFFFFFFFFFFFFF) :
    Counted mode key (log ++ [(i, v)]) v.left.state := by
  obtain ⟨n, hn, hscore⟩ := h.held
  have hfits : n.toInt < 0x7FFFFFFFFFFFFFFF := by omega
  refine ⟨?_, List.forall_mem_append.mpr ⟨h.met, List.forall_mem_singleton.mpr ⟨n, hn, hfits⟩⟩⟩
  rw [List.map_append, score_append]
  rcases hv with hmiss | hscores
  · have hkept := hn.of_live (hmiss.spares n hn)
    exact ⟨n, hkept, by simp [hscore, Mode.score, hmiss.not_scores]⟩
  · obtain ⟨sum, hsum, hone⟩ := hscores.raises n hn hfits
    exact ⟨sum, hsum, by simp [hone, hscore, Mode.score, hscores.scores]⟩

namespace Contest

variable {settings : Settings} {mode : Mode} {c : Counter} {rounds : Nat}
  {sys : System (Fin settings.workers) (Option Tally)} {t t' : Instant}
  {schedule : List (Instant × Turn (Fin settings.workers))}

/-- What each worker has done so far. -/
theorem works (h : Contest settings mode c rounds sys) (hrun : Ordered t schedule t')
    (i : Fin settings.workers) :
    Works mode c.key settings.operations {} ((sys.after schedule).program i)
      (sys.visits i schedule) := by
  have hcourse := sys.course i hrun
  rw [h.programs i] at hcourse
  exact works_of_course h.wellFormed hcourse

/-- **There are operations left as long as a worker makes a call.** -/
theorem score_lt (h : Contest settings mode c rounds sys)
    {pre : List (Instant × Turn (Fin settings.workers))} {now t₁ : Instant} {i : Fin settings.workers}
    {v : Visit} (hrun : Ordered t (pre ++ [(now, .client i)]) t₁)
    (hlog : sys.log (pre ++ [(now, .client i)]) = sys.log pre ++ [(i, v)]) :
    mode.score ((sys.log pre).map Prod.snd) < settings.workers * settings.operations := by
  obtain ⟨t₀, hpre, -⟩ := ordered_append hrun
  have hacting := h.works hrun i
  rw [System.visits, hlog, ofClient_snoc] at hacting
  have hlt := sumOver_lt (fun j => (h.works hpre j).within) (hacting.busy _ v rfl)
    (List.mem_finRange i)
  rw [List.length_finRange] at hlt
  rw [score_log]
  exact hlt

/-- **The count holds all along.** -/
theorem counted (h : Contest settings mode c rounds sys) (hrun : Ordered t schedule t')
    (hothers : sys.OthersSpare c.key schedule) :
    Counted mode c.key (sys.log schedule) (sys.after schedule).store.state := by
  refine System.log_invariant hrun hothers ⟨⟨0, h.zero, rfl⟩, ?_⟩ Counted.of_live ?_
  · exact fun _ hmem => absurd hmem List.not_mem_nil
  · intro pre now t₁ i v hrun hlog hcounted
    have hv := (h.works hrun i).each v (by
      rw [System.visits, hlog, ofClient_snoc]
      exact List.mem_append_right _ List.mem_cons_self)
    have hlt := h.score_lt hrun hlog
    have hfits := h.fits
    exact hcounted.call hv (by omega)

/-- A worker that is done has failed at nothing if the lock is sound in the end, unless it adds in rounds. -/
theorem failed_eq_zero (h : Contest settings mode c rounds sys) (hrun : Ordered t schedule t')
    (hothers : sys.OthersSpare c.key schedule) (hmode : mode ≠ .getAndAdd)
    (hsound : (sys.after schedule).store.poisoned = false) {i : Fin settings.workers} {tally : Tally}
    (hdone : (sys.after schedule).program i = .done (some tally)) : tally.failed = 0 := by
  have hcourse := sys.course i hrun
  rw [h.programs i, hdone] at hcourse
  refine (worker_achieves settings hmode c rounds settings.operations {}).of_course hcourse
    (fun v hv => ?_) tally rfl
  exact ⟨(hcourse.reaches_of_mem v hv).sound hsound,
    (h.counted hrun hothers).met (i, v) (mem_ofClient.mp hv)⟩

/-- **What a contest comes to** when all workers are done. -/
theorem settled (h : Contest settings mode c rounds sys) (hrun : Ordered t schedule t')
    (hothers : sys.OthersSpare c.key schedule) {tallies : Fin settings.workers → Tally}
    (hdone : ∀ i, (sys.after schedule).program i = .done (some (tallies i))) :
    (∃ n, (sys.after schedule).store.state.HoldsInteger c.key n ∧
      n.toInt = (Tally.total tallies).completed) ∧
    (Tally.total tallies).completed + (Tally.total tallies).failed =
      settings.workers * settings.operations ∧
    (mode ≠ .getAndAdd → (sys.after schedule).store.poisoned = false →
      (Tally.total tallies).failed = 0) := by
  have hcounts : ∀ i, (tallies i).completed = mode.score (sys.visits i schedule) ∧
      (tallies i).completed + (tallies i).failed = settings.operations := fun i => by
    simpa using (h.works hrun i).counts (tallies i) (hdone i)
  obtain ⟨n, hn, hscore⟩ := (h.counted hrun hothers).held
  refine ⟨⟨n, hn, ?_⟩, ?_, fun hmode hsound => ?_⟩
  · have hsum : (Tally.total tallies).completed = mode.score ((sys.log schedule).map Prod.snd) := by
      rw [score_log]
      exact sumOver_congr fun i _ => (hcounts i).1
    rw [hscore, hsum]
  · have hsum := sumOver_eq (fun i => (hcounts i).2) (List.finRange settings.workers)
    rw [sumOver_add, List.length_finRange] at hsum
    exact hsum
  · have hzero := sumOver_eq (fun i => h.failed_eq_zero hrun hothers hmode hsound (hdone i))
      (List.finRange settings.workers)
    rwa [Nat.mul_zero] at hzero

end Contest

end WatchedStore.Benchmark
