import WatchedStore.Program

/-!
# Programs on any store

All that a program sees of a store is how its calls are answered. What it does on *any* store, a broken or a
hostile one included, is therefore told by its runs: the calls that it makes, each with the answer that it
gets, and the result that it ends in (`Program.Runs`). Nothing is assumed of the answers.

**The laws**: a program that goes on with another one makes the calls of the one and then those of the
other (`runs_bind`). Whatever a backend answers, what a program does on it is one of its runs
(`runs_exchanges`), so what holds of all runs holds on every backend.
-/

namespace WatchedStore

/-- **A call and how it was answered.** -/
structure Exchange (τ : Type) where
  call : Call τ
  answer : Except Error call.Answer

/-- The error that a call was answered by, if it was. -/
def Exchange.error? (x : Exchange τ) : Option Error :=
  match x.answer with
  | .ok _ => none
  | .error e => some e

namespace Program

/-- **What a program does**: the calls that it makes with the answers that it gets, and its result. -/
inductive Runs : Program τ α → List (Exchange τ) → α → Prop
  | done {result : α} : Runs (.done result) [] result
  | call {c : Call τ} {next : Except Error c.Answer → Program τ α} {answer : Except Error c.Answer}
    {rest : List (Exchange τ)} {result : α} (h : Runs (next answer) rest result) :
    Runs (.call c next) (⟨c, answer⟩ :: rest) result
  | report {event : Event} {next : Program τ α} {exchanges : List (Exchange τ)} {result : α}
    (h : Runs next exchanges result) : Runs (.report event next) exchanges result
  | pause {span : Duration} {next : Program τ α} {exchanges : List (Exchange τ)} {result : α}
    (h : Runs next exchanges result) : Runs (.pause span next) exchanges result

variable {τ α β σ : Type} {xs : List (Exchange τ)}

@[simp] theorem runs_done {result r : α} :
    Runs (.done result : Program τ α) xs r ↔ xs = [] ∧ r = result := by
  constructor
  · intro h
    cases h
    exact ⟨rfl, rfl⟩
  · rintro ⟨rfl, rfl⟩
    exact .done

@[simp] theorem runs_call {c : Call τ} {next : Except Error c.Answer → Program τ α} {r : α} :
    Runs (.call c next) xs r ↔
      ∃ answer rest, xs = ⟨c, answer⟩ :: rest ∧ Runs (next answer) rest r := by
  constructor
  · intro h
    cases h with
    | call h => exact ⟨_, _, rfl, h⟩
  · rintro ⟨answer, rest, rfl, h⟩
    exact .call h

@[simp] theorem runs_report {event : Event} {next : Program τ α} {r : α} :
    Runs (.report event next) xs r ↔ Runs next xs r := by
  constructor
  · intro h
    cases h with
    | report h => exact h
  · exact .report

@[simp] theorem runs_pause {span : Duration} {next : Program τ α} {r : α} :
    Runs (.pause span next) xs r ↔ Runs next xs r := by
  constructor
  · intro h
    cases h with
    | pause h => exact h
  · exact .pause

/-- **One program and then another.** -/
theorem runs_bind {p : Program τ α} {f : α → Program τ β} {r : β} :
    Runs (p.bind f) xs r ↔
      ∃ first rest a, xs = first ++ rest ∧ Runs p first a ∧ Runs (f a) rest r := by
  induction p generalizing xs with
  | done a =>
    simp only [bind, runs_done]
    constructor
    · intro h
      exact ⟨[], xs, a, rfl, ⟨rfl, rfl⟩, h⟩
    · rintro ⟨first, rest, x, rfl, ⟨rfl, rfl⟩, h⟩
      exact h
  | call c next ih =>
    simp only [bind, runs_call, ih]
    constructor
    · rintro ⟨answer, _, rfl, first, rest, a, rfl, hfirst, hrest⟩
      exact ⟨⟨c, answer⟩ :: first, rest, a, rfl, ⟨answer, first, rfl, hfirst⟩, hrest⟩
    · rintro ⟨_, rest, a, rfl, ⟨answer, first, rfl, hfirst⟩, hrest⟩
      exact ⟨answer, first ++ rest, rfl, first, rest, a, rfl, hfirst, hrest⟩
  | report event next ih => simp only [bind, runs_report, ih]
  | pause span next ih => simp only [bind, runs_pause, ih]

/-- **The calls that a program makes on a backend**, with their answers. -/
def exchanges (b : Backend σ τ) : Program τ α → σ → List (Exchange τ)
  | .done _, _ => []
  | .call c next, s => ⟨c, (b.answer c s).1⟩ :: (next (b.answer c s).1).exchanges b (b.answer c s).2
  | .report event next, s => next.exchanges b (b.note event s)
  | .pause span next, s => next.exchanges b (b.wait span s)

/-- **What a program does on a backend is a run of it**, whatever the backend answers. -/
theorem runs_exchanges (b : Backend σ τ) (p : Program τ α) (s : σ) :
    Runs p (p.exchanges b s) (p.run b s).1 := by
  induction p generalizing s with
  | done result => exact .done
  | call c next ih => exact .call (ih _ _)
  | report event next ih => exact .report (ih _)
  | pause span next ih => exact .pause (ih _)

end Program

end WatchedStore
