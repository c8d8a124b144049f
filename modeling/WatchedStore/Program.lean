import WatchedStore.Call
import WatchedStore.Event

/-!
# Programs over a store

Counters, cache regions and the commands built on them talk to a store in steps. A `Program` is the tree
of these steps: each call branches over what the store may answer. So what a program does on *any* store
is a statement about the tree, and running it against a store, with other clients' calls in between, is
walking down one branch. Waiting and logging are steps of their own and see no answer.
-/

namespace WatchedStore

/-- A tree of store calls that ends in a result. -/
inductive Program (τ α : Type) where
  | done (result : α)
  | call (c : Call τ) (next : Except Error c.Answer → Program τ α)
  | report (event : Event) (next : Program τ α)
  | pause (span : Duration) (next : Program τ α)

namespace Program

/-- Goes on with what `f` makes of the result. -/
def bind : Program τ α → (α → Program τ β) → Program τ β
  | .done a, f => f a
  | .call c next, f => .call c fun answer => (next answer).bind f
  | .report event next, f => .report event (next.bind f)
  | .pause span next, f => .pause span (next.bind f)

instance : Monad (Program τ) where
  pure := .done
  bind := bind

end Program

/-- A program that may fail. -/
abbrev Action (τ α : Type) := ExceptT Error (Program τ) α

namespace Action

/-- One call; its error is the action's. -/
def call (c : Call τ) : Action τ c.Answer := ExceptT.mk (.call c .done)

/-- One direct request; its error is the action's. -/
def request (r : Request) : Action τ r.Answer := call (.request r)

/-- One call whose answer is not looked at, not even for an error. -/
def callIgnoring (c : Call τ) : Action τ Unit := ExceptT.mk (.call c fun _ => .done (.ok ()))

/-- Reports an event. -/
def report (event : Event) : Action τ Unit := ExceptT.mk (.report event (.done (.ok ())))

/-- Waits. -/
def pause (span : Duration) : Action τ Unit := ExceptT.mk (.pause span (.done (.ok ())))

/-- The result of an action, be it an error, as a value. -/
def attempt (a : Action τ α) : Action τ (Except Error α) :=
  ExceptT.mk (a.run.bind fun result => .done (.ok result))

/-- A pure result. -/
def ofExcept (result : Except Error α) : Action τ α := ExceptT.mk (.done result)

end Action

/-- A store to run programs against: how its state answers a call, and what waiting and reporting do to
the state. -/
structure Backend (σ τ : Type) where
  answer : (c : Call τ) → σ → Except Error c.Answer × σ
  wait : Duration → σ → σ
  note : Event → σ → σ

/-- Runs a program step by step. -/
def Program.run (b : Backend σ τ) : Program τ α → σ → α × σ
  | .done result, s => (result, s)
  | .call c next, s =>
    let (answer, s) := b.answer c s
    (next answer).run b s
  | .report event next, s => next.run b (b.note event s)
  | .pause span next, s => next.run b (b.wait span s)

/-- Runs an action step by step. -/
def Action.run (b : Backend σ τ) (a : Action τ α) (s : σ) : Except Error α × σ :=
  Program.run b (ExceptT.run a) s

end WatchedStore
