import WatchedStore.Proofs.Benchmark.Operation

/-!
# What one worker counts

A worker carries out its operations one behind the other, and counts those that succeeded and those that
failed. Others interfere between any two of its calls.

**The laws**: a worker has added at most as often as it has operations to carry out, and less often before
it makes another call; when it is done, it has counted as successes what it has added, and all of its
operations as one or the other (`works_of_course`). A worker that meets ready stores counts no failure, unless
it adds in rounds (`worker_achieves`).
-/

namespace WatchedStore.Benchmark

open WatchedStore.Action WatchedStore.Counter WatchedStore.Memory

/-- **How often one was added** by some calls. -/
def Mode.score (mode : Mode) (visits : List Visit) : Nat := visits.countP mode.scores

/-- **What a worker with so many operations to go has done**, and what its tally has become if it is done. -/
structure Works (mode : Mode) (key : String) (operations : Nat) (tally : Tally)
    (left : Program Transaction (Option Tally)) (visits : List Visit) : Prop where
  each : ∀ v ∈ visits, Misses mode key v ∨ Scores mode key v
  within : mode.score visits ≤ operations
  busy : ∀ pre v, visits = pre ++ [v] → mode.score pre < operations
  counts : ∀ tally', left = .done (some tally') →
    tally'.completed = tally.completed + mode.score visits ∧
      tally'.completed + tally'.failed = tally.completed + tally.failed + operations

variable {settings : Settings} {mode : Mode} {c : Counter} {key : String} {rounds operations : Nat}
  {tally : Tally} {t t' : Instant} {s s' : Store} {visits first rest : List Visit}

/-! ## Scores -/

@[simp] theorem score_nil (mode : Mode) : mode.score [] = 0 := rfl

@[simp] theorem score_append (mode : Mode) (first rest : List Visit) :
    mode.score (first ++ rest) = mode.score first + mode.score rest :=
  List.countP_append

theorem score_of_misses (h : ∀ v ∈ visits, Misses mode key v) : mode.score visits = 0 := by
  refine List.countP_eq_zero.mpr fun v hv => ?_
  rw [(h v hv).not_scores]
  exact Bool.false_ne_true

theorem score_of_last {pre : List Visit} {v : Visit} (hmiss : ∀ u ∈ pre, Misses mode key u)
    (hlast : Scores mode key v) : mode.score (pre ++ [v]) = 1 := by
  have hone : mode.score [v] = 1 := by simp [Mode.score, hlast.scores]
  rw [score_append, score_of_misses hmiss, hone]

namespace Attempts

variable {left : Program Transaction (Option Attempt)}

theorem each (h : Attempts mode key left visits) :
    ∀ v ∈ visits, Misses mode key v ∨ Scores mode key v := by
  cases h with
  | missed hmiss _ => exact fun v hv => .inl (hmiss v hv)
  | scored hmiss hlast _ =>
    exact List.forall_mem_append.mpr
      ⟨fun v hv => .inl (hmiss v hv), List.forall_mem_singleton.mpr (.inr hlast)⟩

theorem score_le (h : Attempts mode key left visits) : mode.score visits ≤ 1 := by
  cases h with
  | missed hmiss _ => exact Nat.le_trans (Nat.le_of_eq (score_of_misses hmiss)) (Nat.zero_le 1)
  | scored hmiss hlast _ => exact Nat.le_of_eq (score_of_last hmiss hlast)

/-- Nothing was added before the last call. -/
theorem score_before {pre : List Visit} {v : Visit} (h : Attempts mode key left (pre ++ [v])) :
    mode.score pre = 0 := by
  generalize hvisits : pre ++ [v] = visits at h
  cases h with
  | missed hmiss _ =>
    exact score_of_misses fun u hu => hmiss u (hvisits ▸ List.mem_append_left _ hu)
  | scored hmiss _ _ =>
    obtain ⟨rfl, -⟩ := List.append_inj' hvisits rfl
    exact score_of_misses hmiss

/-- An operation that has ended counts as what it has done. -/
theorem add_counts {a : Attempt} (h : Attempts mode key (.done (some a)) visits) (tally : Tally) :
    (tally.add a).completed = tally.completed + mode.score visits ∧
      (tally.add a).completed + (tally.add a).failed = tally.completed + tally.failed + 1 := by
  obtain ⟨result, misses⟩ := a
  cases h with
  | missed hmiss hleft =>
    rw [score_of_misses hmiss]
    cases result with
    | ok u => exact absurd rfl (hleft _ rfl)
    | error e => exact ⟨rfl, rfl⟩
  | scored hmiss hlast hleft =>
    obtain ⟨misses', heq⟩ := hleft _ rfl
    cases heq
    rw [score_of_last hmiss hlast]
    exact ⟨rfl, by simp only [Tally.add]; omega⟩

end Attempts

/-! ## One operation more -/

/-- An operation after which the worker is not done, or will not be. -/
theorem Works.of_unfinished {q : Program Transaction (Option Attempt)}
    {left : Program Transaction (Option Tally)} (h : Attempts mode key q visits)
    (hleft : ∀ tally', left ≠ .done (some tally')) :
    Works mode key (operations + 1) tally left visits where
  each := h.each
  within := Nat.le_trans h.score_le (Nat.le_add_left 1 operations)
  busy pre v hvisits := by
    subst hvisits
    rw [h.score_before]
    exact Nat.succ_pos operations
  counts tally' hdone := absurd hdone (hleft tally')

/-- **An operation that has ended, and what the worker does from then on.** -/
theorem Works.of_finished {a : Attempt} {left : Program Transaction (Option Tally)}
    (hfirst : Attempts mode key (.done (some a)) first)
    (hrest : Works mode key operations (tally.add a) left rest) :
    Works mode key (operations + 1) tally left (first ++ rest) where
  each := List.forall_mem_append.mpr ⟨hfirst.each, hrest.each⟩
  within := by
    have hone := hfirst.score_le
    have hwithin := hrest.within
    rw [score_append]
    omega
  busy pre v hvisits := by
    rcases List.eq_nil_or_concat rest with rfl | ⟨pre', v', rfl⟩
    · rw [List.append_nil] at hvisits
      subst hvisits
      rw [hfirst.score_before]
      exact Nat.succ_pos operations
    · rw [List.concat_eq_append, ← List.append_assoc] at hvisits
      obtain ⟨rfl, -⟩ := List.append_inj' hvisits rfl
      have hone := hfirst.score_le
      have hbusy := hrest.busy pre' v' (List.concat_eq_append ..)
      rw [score_append]
      omega
  counts tally' hdone := by
    obtain ⟨hcompleted, hall⟩ := hrest.counts tally' hdone
    obtain ⟨hcompleted', hall'⟩ := hfirst.add_counts tally
    rw [score_append]
    omega

/-! ## All operations -/

/-- How a worker goes on behind an operation. -/
def afterOperation (settings : Settings) (mode : Mode) (c : Counter) (rounds operations : Nat)
    (tally : Tally) : Option Attempt → Program τ (Option Tally)
  | none => .done none
  | some a =>
    match a.result with
    | .ok () => worker settings mode c rounds operations (tally.add a)
    | .error e =>
      if settings.quiet then worker settings mode c rounds operations (tally.add a)
      else .report (failure e) (worker settings mode c rounds operations (tally.add a))

theorem worker_succ (settings : Settings) (mode : Mode) (c : Counter) (rounds operations : Nat)
    (tally : Tally) :
    worker (τ := Transaction) settings mode c rounds (operations + 1) tally =
      (mode.operation c rounds).bind (afterOperation settings mode c rounds operations tally) := by
  refine congrArg (Program.bind (mode.operation c rounds)) (funext fun r => ?_)
  cases r <;> rfl

/-- Whether a failure is reported makes no difference to any store. -/
theorem afterOperation_course {a : Attempt} {left : Program Transaction (Option Tally)}
    (hc : Course t' s' left t s (afterOperation settings mode c rounds operations tally (some a)) visits) :
    (visits = [] ∧ ∀ r, left ≠ .done r) ∨
      Course t' s' left t s (worker settings mode c rounds operations (tally.add a)) visits := by
  unfold afterOperation at hc
  dsimp only at hc
  split at hc
  · exact .inr hc
  · split at hc
    · exact .inr hc
    · rcases hc.report_inv with ⟨rfl, rfl⟩ | hc
      · exact .inl ⟨rfl, fun _ h => by cases h⟩
      · exact .inr hc

/-- **What a worker has done, and what it has counted**, in whatever course. -/
theorem works_of_course {left : Program Transaction (Option Tally)} (hs : s.WellFormed)
    (hc : Course t' s' left t s (worker settings mode c rounds operations tally) visits) :
    Works mode c.key operations tally left visits := by
  induction operations generalizing tally t s visits with
  | zero =>
    obtain ⟨rfl, rfl⟩ := hc.done_inv
    refine ⟨fun _ hv => absurd hv List.not_mem_nil, Nat.zero_le 0, fun pre v h => by simp at h, ?_⟩
    intro tally' h
    cases h
    exact ⟨rfl, rfl⟩
  | succ operations ih =>
    rw [worker_succ] at hc
    rcases hc.bind_inv with ⟨q, hnot, rfl, hq⟩ | ⟨r, t₁, s₁, first, rest, rfl, hfirst, hrest⟩
    · refine .of_unfinished (mode.attempts hs hq) fun tally' h => ?_
      cases q with
      | done r => exact hnot r rfl
      | _ => cases h
    have hattempt := mode.attempts hs hfirst
    cases r with
    | none =>
      obtain ⟨rfl, rfl⟩ := hrest.done_inv
      rw [List.append_nil]
      exact .of_unfinished hattempt fun _ h => by cases h
    | some a =>
      rcases afterOperation_course hrest with ⟨rfl, hleft⟩ | hrest
      · rw [List.append_nil]
        exact .of_unfinished hattempt fun tally' => hleft (some tally')
      · exact .of_finished hattempt (ih (hfirst.reaches.wellFormed hs) hrest)

/-- **A worker that meets ready stores counts no failure**, unless it adds in rounds. -/
theorem worker_achieves (settings : Settings) (hmode : mode ≠ .getAndAdd) (c : Counter) (rounds : Nat)
    (operations : Nat) (tally : Tally) :
    Achieves (Ready c.key) (fun r => ∀ tally', r = some tally' → tally'.failed = tally.failed)
      (worker settings mode c rounds operations tally) := by
  induction operations generalizing tally with
  | zero => exact .done fun tally' h => by cases h; rfl
  | succ operations ih =>
    rw [worker_succ]
    refine (mode.achieves hmode c rounds).bind fun r hr => ?_
    cases r with
    | none => exact .done fun tally' h => by cases h
    | some a =>
      obtain ⟨result, misses⟩ := a
      obtain rfl : result = .ok () := hr _ rfl
      exact ih (tally.add ⟨.ok (), misses⟩)

end WatchedStore.Benchmark
