import WatchedStore.Program

/-!
# Interference

Hooks around the calls to a store: before or after a call of some operation, they carry out requests of
their own, like another client, and may then make the call fail. This is how conflicts and failures are
produced at a chosen place.
-/

namespace WatchedStore

/-- The operations that hooks tell apart. -/
inductive Operation where
  | get
  | set
  | getSet
  | increment
  | decrement
  | expire
  | contains
  | delete
  | setAdd
  | setRemove
  | setMembers
  | batch
  | watch
  | txGet
  | exec
  | discard
  deriving DecidableEq

/-- The operation of a request. -/
def Request.operation : Request → Operation
  | .get _ => .get
  | .set .. => .set
  | .getSet .. => .getSet
  | .increment .. => .increment
  | .decrement .. => .decrement
  | .expire .. => .expire
  | .contains _ => .contains
  | .delete _ => .delete
  | .setAdd .. => .setAdd
  | .setRemove .. => .setRemove
  | .setMembers _ => .setMembers
  | .batch _ => .batch

/-- The operation of a call. -/
def Call.operation : Call τ → Operation
  | .request r => r.operation
  | .watch _ => .watch
  | .txGet .. => .txGet
  | .exec .. => .exec
  | .discard _ => .discard

/-- When a hook takes part in a call: before it, or after it has succeeded. -/
inductive Moment where
  | before
  | after
  deriving DecidableEq

/-- A hook: it lets the first `skip` calls that it is made for pass, and takes part in the next `times`. -/
structure Hook where
  on : Operation
  moment : Moment
  skip : Nat
  times : Nat
  requests : List Request
  failure : Option Error

/-- Offers a call to a hook: the hook afterwards, and whether it takes part. -/
def Hook.offer (h : Hook) (on : Operation) (moment : Moment) : Hook × Bool :=
  if h.on != on || h.moment != moment then (h, false)
  else if h.skip != 0 then ({ h with skip := h.skip - 1 }, false)
  else if h.times != 0 then ({ h with times := h.times - 1 }, true)
  else (h, false)

/-- A store's state and the hooks around it, in the order in which they were armed. -/
structure Interfered (σ : Type) where
  base : σ
  hooks : List Hook := []

namespace Interfered

/-- How often hooks can still take part. -/
def armed (s : Interfered σ) : Nat := s.hooks.foldl (fun total h => total + h.times) 0

/-- Adds a hook. -/
def arm (s : Interfered σ) (h : Hook) : Interfered σ := { s with hooks := s.hooks ++ [h] }

/-- Carries out requests up to the first that fails. -/
def carryOut (b : Backend σ τ) : List Request → σ → Except Error Unit × σ
  | [], s => (.ok (), s)
  | r :: rest, s =>
    match b.answer (.request r) s with
    | (.ok _, s) => carryOut b rest s
    | (.error e, s) => (.error e, s)

/-- Lets hooks act one after the other, up to the first failure. -/
def act (b : Backend σ τ) : List Hook → σ → Except Error Unit × σ
  | [], s => (.ok (), s)
  | h :: rest, s =>
    match carryOut b h.requests s, h.failure with
    | (.ok (), s), none => act b rest s
    | (.ok (), s), some e => (.error e, s)
    | (.error e, s), _ => (.error e, s)

/-- Lets the hooks act that take part in a call. They are chosen before any of them acts. -/
def interfere (b : Backend σ τ) (on : Operation) (moment : Moment) (s : Interfered σ) :
    Except Error Unit × Interfered σ :=
  let offered := s.hooks.map fun h => h.offer on moment
  let chosen := (s.hooks.zip offered).filterMap fun (h, _, takesPart) =>
    if takesPart then some h else none
  let (result, base) := act b chosen s.base
  (result, { base, hooks := offered.map Prod.fst })

/-- A store whose calls are subject to hooks. -/
def backend (b : Backend σ τ) : Backend (Interfered σ) τ where
  answer := fun c s =>
    match interfere b c.operation .before s with
    | (.error e, s) => (.error e, s)
    | (.ok (), s) =>
      match b.answer c s.base with
      | (.error e, base) => (.error e, { s with base })
      | (.ok answer, base) =>
        match interfere b c.operation .after { s with base } with
        | (.ok (), s) => (.ok answer, s)
        | (.error e, s) => (.error e, s)
  wait := fun d s => { s with base := b.wait d s.base }
  note := fun e s => { s with base := b.note e s.base }

end Interfered

end WatchedStore
