import WatchedStore.Proofs.Clients.Course

/-!
# Clients that share a store

A `System` is one store and a program for each client; there may be any number of clients. A schedule says
who acts at which reading of the clock. A client whose turn it is makes one step of its program, so calls
of different clients interleave in any order; between them there may be deeds of anybody else.

**The projection law** (`System.course`): as each single client sees it, a schedule is a course among
other deeds. What holds of every course therefore holds of every client in every schedule.
-/

namespace WatchedStore.Memory

/-- Who acts next: a client, or somebody else. -/
inductive Turn (ι : Type) where
  | client (i : ι)
  | other (d : Deed)

/-- **One store and the programs of its clients**, as far as they are left. -/
structure System (ι α : Type) where
  store : Store
  program : ι → Program Transaction α

/-- Lets a program make one step: what is left of it, and the store afterwards. -/
def advance (now : Instant) (s : Store) : Program Transaction α → Program Transaction α × Store
  | .done r => (.done r, s)
  | .call c next => (next (s.call now c).1, (s.call now c).2)
  | .report _ next => (next, s)
  | .pause _ next => (next, s)

/-- The call that a program makes in its next step, if it makes one. -/
def visit? (now : Instant) (s : Store) : Program Transaction α → Option Visit
  | .call c _ => some ⟨now, s, c⟩
  | _ => none

theorem advance_of_none {now : Instant} {s : Store} {p : Program Transaction α}
    (h : visit? now s p = none) : (advance now s p).2 = s := by
  cases p with
  | call => cases h
  | _ => rfl

theorem advance_of_some {now : Instant} {s : Store} {p : Program Transaction α} {v : Visit}
    (h : visit? now s p = some v) : v.now = now ∧ v.store = s ∧ (advance now s p).2 = v.left := by
  cases p with
  | call c next =>
    cases h
    exact ⟨rfl, rfl, rfl⟩
  | _ => cases h

namespace System

variable {ι α : Type} [DecidableEq ι]

/-- Lets somebody act. -/
def turn (now : Instant) (sys : System ι α) : Turn ι → System ι α
  | .client i =>
    { store := (advance now sys.store (sys.program i)).2
      program := fun j =>
        if j = i then (advance now sys.store (sys.program i)).1 else sys.program j }
  | .other d => { sys with store := sys.store.perform now d }

/-- The system after a schedule. -/
def after (sys : System ι α) : List (Instant × Turn ι) → System ι α
  | [] => sys
  | (now, who) :: rest => (sys.turn now who).after rest

/-- The call of a client that takes place in a turn, if there is one. -/
def visit? (now : Instant) (sys : System ι α) : Turn ι → Option (ι × Visit)
  | .client i => (Memory.visit? now sys.store (sys.program i)).map (i, ·)
  | .other _ => none

/-- **All calls of clients during a schedule**, in their order. -/
def log (sys : System ι α) : List (Instant × Turn ι) → List (ι × Visit)
  | [] => []
  | (now, who) :: rest => (sys.visit? now who).toList ++ (sys.turn now who).log rest

/-- The part of a log that is one client's. -/
def ofClient (i : ι) (log : List (ι × Visit)) : List Visit :=
  log.filterMap fun entry => if entry.1 = i then some entry.2 else none

/-- **The calls of one client** during a schedule. -/
def visits (sys : System ι α) (i : ι) (schedule : List (Instant × Turn ι)) : List Visit :=
  ofClient i (sys.log schedule)

variable (sys : System ι α) (i : ι) (now : Instant)

theorem after_append (pre post : List (Instant × Turn ι)) :
    sys.after (pre ++ post) = (sys.after pre).after post := by
  induction pre generalizing sys with
  | nil => rfl
  | cons step rest ih => exact ih _

theorem log_append (pre post : List (Instant × Turn ι)) :
    sys.log (pre ++ post) = sys.log pre ++ (sys.after pre).log post := by
  induction pre generalizing sys with
  | nil => rfl
  | cons step rest ih => rw [List.cons_append, log, ih, log, List.append_assoc, after]

theorem visits_cons (who : Turn ι) (rest : List (Instant × Turn ι)) :
    sys.visits i ((now, who) :: rest) =
      ofClient i (sys.visit? now who).toList ++ (sys.turn now who).visits i rest := by
  simp only [visits, log, ofClient, List.filterMap_append]

theorem visits_own (rest : List (Instant × Turn ι)) :
    sys.visits i ((now, .client i) :: rest) =
      (Memory.visit? now sys.store (sys.program i)).toList ++
        (sys.turn now (.client i)).visits i rest := by
  rw [visits_cons, visit?]
  cases Memory.visit? now sys.store (sys.program i) <;> simp [ofClient]

theorem visits_other {j : ι} (h : j ≠ i) (rest : List (Instant × Turn ι)) :
    sys.visits i ((now, .client j) :: rest) = (sys.turn now (.client j)).visits i rest := by
  rw [visits_cons, visit?]
  cases Memory.visit? now sys.store (sys.program j) <;> simp [ofClient, h]

theorem program_turn_own :
    (sys.turn now (.client i)).program i = (advance now sys.store (sys.program i)).1 := by
  simp only [turn, if_true]

theorem program_turn_other {j : ι} (h : j ≠ i) :
    (sys.turn now (.client j)).program i = sys.program i := by
  simp only [turn, if_neg (Ne.symm h)]

/-- What a step does to the store is nothing, or a call. -/
theorem store_turn_client :
    (sys.turn now (.client i)).store = sys.store ∨
      ∃ c, (sys.turn now (.client i)).store = sys.store.perform now (.call c) := by
  simp only [turn]
  cases sys.program i with
  | call c next => exact .inr ⟨c, rfl⟩
  | _ => exact .inl rfl

/-- **A schedule is a course for each client.** -/
theorem course {t t' : Instant} {schedule : List (Instant × Turn ι)} (h : Ordered t schedule t') :
    Course t' (sys.after schedule).store ((sys.after schedule).program i) t sys.store (sys.program i)
      (sys.visits i schedule) := by
  induction schedule generalizing sys t with
  | nil => exact .wait h .stop
  | cons step rest ih =>
    obtain ⟨now, who⟩ := step
    refine .wait h.1 ?_
    have hrest := ih (sys.turn now who) h.2
    rw [after]
    cases who with
    | other d =>
      rw [visits_cons]
      exact .other d hrest
    | client j =>
      by_cases hj : j = i
      · subst hj
        rw [visits_own]
        rw [program_turn_own] at hrest
        simp only [turn] at hrest ⊢
        generalize sys.program j = p at hrest ⊢
        cases p with
        | done r => exact hrest
        | call c next => exact .call hrest
        | report e next => exact .report hrest
        | pause d next => exact .pause hrest
      · -- to this client the turn of another is a deed, or nothing
        rw [visits_other sys i now hj]
        rw [program_turn_other sys i now hj] at hrest
        rcases store_turn_client sys j now with hs | ⟨c, hs⟩
        · rw [hs] at hrest
          exact hrest
        · rw [hs] at hrest
          exact .other (.call c) hrest

end System

end WatchedStore.Memory
