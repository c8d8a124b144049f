import WatchedStore.Session.Step

/-!
# Running a session

The objects that steps have made are kept by their ids. Two ids name the same region exactly when one
manager handed both out for one name; a region that was made directly is its own.
-/

namespace WatchedStore.Session

/-- Where a region comes from, which tells whether two are the same. -/
inductive Origin where
  | direct (serial : Nat)
  | managed (manager : Nat) (name : String)
  deriving DecidableEq

/-- What a session needs to know of a store besides its calls: how a transaction is shown, what the
steps of its own do, and which events have been logged since they were last taken. -/
structure Ground (σ τ ε : Type) where
  backend : Backend σ τ
  describe : τ → String
  other : ε → σ → Outcome × σ
  takeEvents : σ → List Event × σ

end Session

/-- The store with its hooks, and the objects made so far. Managers are numbered, and so are the regions
that were made directly. -/
structure Session (σ τ : Type) where
  store : Interfered σ
  transactions : Std.ExtTreeMap String τ := ∅
  counters : Std.ExtTreeMap String Counter := ∅
  managers : Std.ExtTreeMap String (Nat × Cache.Manager) := ∅
  regions : Std.ExtTreeMap String (Session.Origin × Cache.Region) := ∅
  serial : Nat := 0

namespace Session

/-- Runs an action on the store with its hooks. -/
def act (g : Ground σ τ ε) (s : Session σ τ) (a : Action τ α) (outcome : α → Outcome) :
    Outcome × Session σ τ :=
  let (result, store) := a.run (Interfered.backend g.backend) s.store
  (.ofExcept outcome result, { s with store })

/-- The action of an operation on a counter, and its outcome. -/
def counterAction (c : Counter) : CounterOperation → Action τ Outcome
  | .key => return .text c.key
  | .get => .integer <$> c.get
  | .set value => (fun _ => .done) <$> c.set value
  | .getAndSet value => .integer <$> c.getAndSet value
  | .incrementAndGet => .integer <$> c.incrementAndGet
  | .decrementAndGet => .integer <$> c.decrementAndGet
  | .addAndGet delta => .integer <$> c.addAndGet delta
  | .getAndIncrement => .integer <$> c.getAndIncrement
  | .getAndDecrement => .integer <$> c.getAndDecrement
  | .getAndAdd delta => .integer <$> c.getAndAdd delta
  | .compareAndSet expect update => .truth <$> c.compareAndSet expect update

/-- The action of an operation on a region, and its outcome. -/
def regionAction (r : Cache.Region) : RegionOperation → Action τ Outcome
  | .info => return .region r
  | .storageKey key => return .text (r.storageKey key)
  | .getRaw key => .data <$> r.getRaw key
  | .put key value => (fun _ => .done) <$> r.putValue key value
  | .get key form => .cached <$> r.get form.reader key
  | .evict key => (fun _ => .done) <$> r.evict key
  | .clear => (fun _ => .done) <$> r.clear

/-- Runs one step. -/
def step (g : Ground σ τ ε) (s : Session σ τ) : Step ε → Outcome × Session σ τ
  | .request r => s.act g (Action.request r) (.ofAnswer r)
  | .watch id keys =>
    let (result, store) := (Action.call (.watch keys)).run (Interfered.backend g.backend) s.store
    let s := { s with store }
    match result with
    | .ok tx => (.done, { s with transactions := s.transactions.insert id tx })
    | .error e => (.failed e, s)
  | .txGet id key =>
    match s.transactions[id]? with
    | some tx => s.act g (Action.call (.txGet tx key)) .data
    | none => (.noSuchId, s)
  | .txExec id commands =>
    match s.transactions[id]? with
    | some tx =>
      { s with transactions := s.transactions.erase id }.act g
        (Action.call (.exec tx commands)) .transacted
    | none => (.noSuchId, s)
  | .txDiscard id =>
    match s.transactions[id]? with
    | some tx =>
      { s with transactions := s.transactions.erase id }.act g
        (Action.call (.discard tx)) (fun _ => .done)
    | none => (.noSuchId, s)
  | .txDebug id =>
    match s.transactions[id]? with
    | some tx => (.text (g.describe tx), s)
    | none => (.noSuchId, s)
  | .newCounter id key settings init =>
    let made := Counter.create key settings init (fun _ => 0)
    let (result, store) := made.run (Interfered.backend g.backend) s.store
    let s := { s with store }
    match result with
    | .ok c => (.done, { s with counters := s.counters.insert id c })
    | .error e => (.failed e, s)
  | .counter id operation =>
    match s.counters[id]? with
    | some c => s.act g (counterAction c operation) (fun o => o)
    | none => (.noSuchId, s)
  | .newManager id settings strategy =>
    let m := Cache.Manager.ofSettings settings
    let m := strategy.elim m m.withStrategy
    let s := { s with managers := s.managers.insert id (s.serial, m) }
    (.done, { s with serial := s.serial + 1 })
  | .changeStrategy id strategy =>
    match s.managers[id]? with
    | some (serial, m) =>
      (.done, { s with managers := s.managers.insert id (serial, m.withStrategy strategy) })
    | none => (.noSuchId, s)
  | .managedRegion id name as_ =>
    match s.managers[id]? with
    | some (serial, m) =>
      let ((result, m), store) := (m.region name).run (Interfered.backend g.backend) s.store
      let s := { s with store, managers := s.managers.insert id (serial, m) }
      match result with
      | .ok r => (.done, { s with regions := s.regions.insert as_ (.managed serial name, r) })
      | .error e => (.failed e, s)
    | none => (.noSuchId, s)
  | .regionNames id =>
    match s.managers[id]? with
    | some (_, m) => (.ofExcept .texts m.names, s)
    | none => (.noSuchId, s)
  | .expirationFor id name =>
    match s.managers[id]? with
    | some (_, m) => (.span (m.expirationFor name), s)
    | none => (.noSuchId, s)
  | .newRegion id r =>
    let s := { s with regions := s.regions.insert id (.direct s.serial, r) }
    (.done, { s with serial := s.serial + 1 })
  | .region id operation =>
    match s.regions[id]? with
    | some (_, r) => s.act g (regionAction r operation) (fun o => o)
    | none => (.noSuchId, s)
  | .sameRegion id other =>
    match s.regions[id]?, s.regions[other]? with
    | some (a, _), some (b, _) => (.truth (a = b), s)
    | _, _ => (.noSuchId, s)
  | .arm h => (.done, { s with store := s.store.arm h })
  | .armed => (.count s.store.armed, s)
  | .other o =>
    let (outcome, base) := g.other o s.store.base
    (outcome, { s with store := { s.store with base } })

/-- What a session shows of a step: its outcome, the events it logged, and what an observer sees of the
store afterwards. -/
structure Entry (ω : Type) where
  outcome : Outcome
  events : List Event
  seen : ω

/-- Runs steps one after the other. Before each step `arrive` lets something reach the store; after it
`observe` looks at the store. -/
def play (g : Ground σ τ ε) (arrive : ι → σ → σ) (observe : σ → ω × σ) :
    List (ι × Step ε) → Session σ τ → List (Entry ω)
  | [], _ => []
  | (arrival, next) :: rest, s =>
    let s := { s with store := { s.store with base := arrive arrival s.store.base } }
    let (outcome, s) := s.step g next
    let (events, base) := g.takeEvents s.store.base
    let (seen, base) := observe base
    ⟨outcome, events, seen⟩ :: play g arrive observe rest { s with store := { s.store with base } }

end Session

end WatchedStore
