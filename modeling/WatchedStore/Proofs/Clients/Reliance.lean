import WatchedStore.Proofs.Clients.Schedule
import WatchedStore.Proofs.Memory.Effect

/-!
# Clients that rely on one another

What a client calls next depends on the answers that it got. So whether all its calls are of a harmless
kind may depend on whether all answers are, and these depend on what other clients have called before. Each
client relies on the others: `Relies P Q p` says that a program makes calls of kind `P` only, as long as
its answers are of kind `Q`.

**The run law** (`System.relies_invariant`): an invariant of the calls so far and the store, that makes the
answers be of kind `Q` and is kept by calls of kind `P`, holds in every schedule of clients that rely on it.
Here all calls succeed, and others do no more than clean up.
-/

namespace WatchedStore

/-- Whether a call was answered without an error, in no place of a batch either. -/
def Call.succeeds {τ : Type} : (c : Call τ) → Except Error c.Answer → Bool
  | .request (.batch _), a => Memory.succeeds a
  | _, .ok _ => true
  | _, .error _ => false

namespace Memory

/-- Whether a call was answered without an error, in no place of a batch either. -/
def Visit.succeeds (v : Visit) : Bool := v.call.succeeds v.answer

/-- **A program whose calls are of one kind, if its answers are of another.** -/
inductive Relies (P : Call Transaction → Prop)
    (Q : (c : Call Transaction) → Except Error c.Answer → Prop) : Program Transaction α → Prop
  | done {r : α} : Relies P Q (.done r)
  | call {c : Call Transaction} {next : Except Error c.Answer → Program Transaction α} (hc : P c)
    (hnext : ∀ a, Q c a → Relies P Q (next a)) : Relies P Q (.call c next)
  | report {e : Event} {next : Program Transaction α} (h : Relies P Q next) : Relies P Q (.report e next)
  | pause {d : Duration} {next : Program Transaction α} (h : Relies P Q next) :
    Relies P Q (.pause d next)

/-- **An invariant of calls and store** that clients can rely on: it is kept while time passes and by
clean-ups, and a call of kind `P` that succeeds keeps it and is answered by kind `Q`. -/
structure Reliable {ι : Type} (P : Call Transaction → Prop)
    (Q : (c : Call Transaction) → Except Error c.Answer → Prop)
    (I : List (ι × Visit) → Instant → Store → Prop) : Prop where
  wait : ∀ {log now later s}, I log now s → now ≤ later → I log later s
  cleanUp : ∀ {log now s}, I log now s → I log now (s.perform now .cleanUp)
  call : ∀ {log now s} (i : ι) {c : Call Transaction}, I log now s → P c →
    c.succeeds (s.call now c).1 = true →
    I (log ++ [(i, ⟨now, s, c⟩)]) now (s.call now c).2 ∧ Q c (s.call now c).1

/-- Whether others do no more than clean up. -/
def OnlyCleanUps {ι : Type} (schedule : List (Instant × Turn ι)) : Prop :=
  ∀ step ∈ schedule, ∀ d, step.2 = .other d → d = .cleanUp

variable {ι α : Type} [DecidableEq ι] {P : Call Transaction → Prop}
  {Q : (c : Call Transaction) → Except Error c.Answer → Prop}
  {I : List (ι × Visit) → Instant → Store → Prop}

theorem Relies.mono {P' : Call Transaction → Prop} {Q' : (c : Call Transaction) → Except Error c.Answer → Prop}
    {p : Program Transaction α} (hP : ∀ c, P c → P' c) (hQ : ∀ c a, Q' c a → Q c a) (h : Relies P Q p) :
    Relies P' Q' p := by
  induction h with
  | done => exact .done
  | call hc _ ih => exact .call (hP _ hc) fun a ha => ih a (hQ _ a ha)
  | report _ ih => exact .report ih
  | pause _ ih => exact .pause ih

theorem Relies.advance_of_none {p : Program Transaction α} {now : Instant} {s : Store}
    (h : Relies P Q p) (hv : visit? now s p = none) : Relies P Q (advance now s p).1 := by
  cases h with
  | done => exact .done
  | call => cases hv
  | report h => exact h
  | pause h => exact h

theorem Relies.advance_of_some {p : Program Transaction α} {now : Instant} {s : Store} {v : Visit}
    (h : Relies P Q p) (hv : visit? now s p = some v) :
    P v.call ∧ (Q v.call v.answer → Relies P Q (advance now s p).1) := by
  cases h with
  | call hc hnext =>
    cases hv
    exact ⟨hc, hnext _⟩
  | _ => cases hv

/-- **What clients rely on holds in every schedule.** -/
theorem System.relies_invariant (log : List (ι × Visit)) {sys : System ι α} {t t' : Instant}
    {schedule : List (Instant × Turn ι)} (hI : Reliable P Q I) (hrun : Ordered t schedule t')
    (hothers : OnlyCleanUps schedule) (hrelies : ∀ i, Relies P Q (sys.program i))
    (hgood : ∀ entry ∈ sys.log schedule, entry.2.succeeds = true) (hstart : I log t sys.store) :
    I (log ++ sys.log schedule) t' (sys.after schedule).store := by
  induction schedule generalizing sys t log with
  | nil =>
    rw [System.log, List.append_nil]
    exact hI.wait hstart hrun
  | cons step rest ih =>
    obtain ⟨now, who⟩ := step
    obtain ⟨hle, hrest⟩ := hrun
    have hnow := hI.wait hstart hle
    have hothersRest : OnlyCleanUps rest := fun step hstep => hothers step (List.mem_cons_of_mem _ hstep)
    rw [System.log, ← List.append_assoc, System.after]
    rw [System.log] at hgood
    have hgoodRest := fun entry hentry => hgood entry (List.mem_append_right _ hentry)
    cases who with
    | other d =>
      obtain rfl : d = .cleanUp := hothers _ List.mem_cons_self d rfl
      rw [System.visit?, Option.toList_none, List.append_nil]
      exact ih _ hrest hothersRest hrelies hgoodRest (hI.cleanUp hnow)
    | client i =>
      -- the client whose turn it is makes one step; the programs of all others stay as they are
      have hnext : Relies P Q (advance now sys.store (sys.program i)).1 →
          ∀ j, Relies P Q ((sys.turn now (.client i)).program j) := by
        intro hown j
        by_cases hj : i = j
        · subst hj
          rwa [System.program_turn_own]
        · rw [System.program_turn_other sys j now hj]
          exact hrelies j
      have hstore : (sys.turn now (.client i)).store = (advance now sys.store (sys.program i)).2 := rfl
      rw [System.visit?]
      cases hv : Memory.visit? now sys.store (sys.program i) with
      | none =>
        rw [Option.map_none, Option.toList_none, List.append_nil]
        refine ih _ hrest hothersRest (hnext ((hrelies i).advance_of_none hv)) hgoodRest ?_
        rwa [hstore, Memory.advance_of_none hv]
      | some v =>
        obtain ⟨rfl, hmet, hleft⟩ := Memory.advance_of_some hv
        obtain ⟨hcall, hown⟩ := (hrelies i).advance_of_some hv
        have hsucceeds : v.succeeds = true :=
          hgood (i, v) (List.mem_append_left _ (by rw [System.visit?, hv]; simp))
        obtain ⟨hafter, hanswer⟩ := hI.call i (hmet ▸ hnow) hcall hsucceeds
        refine ih _ hrest hothersRest (hnext (hown hanswer)) hgoodRest ?_
        rw [hstore, hleft]
        exact hafter

end Memory

end WatchedStore
