import WatchedStore.Memory.Store
import WatchedStore.Proofs.Memory.Change

/-!
# Direct operations, read at their key

Every direct operation but a batch is about one key, too, and follows a rule under the lock
(`request_eq_follow`). There is one exception: a subtraction of the smallest integer, whose negative does
not fit, is refused before the lock is taken. So a request is ruled, refused, or a batch
(`Rule.ruled_or_refused_or_batch`), and what is proved of every rule holds of every request.
-/

namespace WatchedStore.Memory

/-- **The rule that decides a direct operation**, and the key that it is about. -/
inductive Rule.Decides (now : Instant) : (r : Request) → String → Rule r.Answer → Prop
  | get (key : String) : Decides now (.get key) key Rule.get
  | set (key : String) (value : Bytes) (ttl : Option Duration) :
    Decides now (.set key value ttl) key (Rule.set value ttl now)
  | getSet (key : String) (value : Bytes) : Decides now (.getSet key value) key (Rule.getSet value)
  | increment (key : String) (amount : Int64) :
    Decides now (.increment key amount) key (Rule.increment key amount)
  | decrement (key : String) {amount negated : Int64} (h : Numeral.neg? amount = some negated) :
    Decides now (.decrement key amount) key (Rule.increment key negated)
  | expire (key : String) (ttl : Duration) : Decides now (.expire key ttl) key (Rule.expire ttl now)
  | contains (key : String) : Decides now (.contains key) key Rule.contains
  | delete (key : String) : Decides now (.delete key) key Rule.delete
  | setAdd (key : String) (member : Bytes) : Decides now (.setAdd key member) key (Rule.setAdd member)
  | setRemove (key : String) (member : Bytes) :
    Decides now (.setRemove key member) key (Rule.setRemove member)
  | setMembers (key : String) : Decides now (.setMembers key) key Rule.setMembers

variable {now : Instant} {r : Request} {key : String} {rule : Rule r.Answer}

theorem Store.locked_congr {f g : State → Except Error α × State} (h : ∀ state, f state = g state)
    (s : Store) : s.locked f = s.locked g := by
  rw [funext h]

/-- **A direct operation follows its rule** under the lock. -/
theorem Store.request_eq_follow (h : Rule.Decides now r key rule) (s : Store) :
    s.request now r = s.locked fun state => state.follow rule key s.maxEntries now := by
  cases h with
  | get =>
    exact locked_congr (fun state => (state.read_eq_get key now).trans (state.get_eq_follow ..)) s
  | set => exact locked_congr (fun state => state.set_eq_follow ..) s
  | getSet => exact locked_congr (fun state => state.getSet_eq_follow ..) s
  | increment => exact locked_congr (fun state => state.increment_eq_follow ..) s
  | decrement _ hneg =>
    rw [request, hneg]
    exact locked_congr (fun state => state.increment_eq_follow ..) s
  | expire => exact locked_congr (fun state => state.expire_eq_follow ..) s
  | contains => exact locked_congr (fun state => state.contains_eq_follow ..) s
  | delete => exact locked_congr (fun state => state.delete_eq_follow ..) s
  | setAdd => exact locked_congr (fun state => state.setAdd_eq_follow ..) s
  | setRemove => exact locked_congr (fun state => state.setRemove_eq_follow ..) s
  | setMembers => exact locked_congr (fun state => state.setMembers_eq_follow ..) s

/-- So does a read inside a transaction. -/
theorem Store.txGet_eq_follow (s : Store) (tx : Transaction) (key : String) (now : Instant) :
    s.call now (.txGet tx key) =
      s.locked fun state => state.follow Rule.get key s.maxEntries now :=
  locked_congr (fun state => (state.read_eq_get key now).trans (state.get_eq_follow ..)) s

/-- **A request is ruled, refused, or a batch.** -/
theorem Rule.ruled_or_refused_or_batch (now : Instant) (r : Request) :
    (∃ key rule, Decides now r key rule) ∨ (∀ s : Store, s.request now r = (.error .notAnInteger, s)) ∨
      ∃ commands, r = .batch commands := by
  cases r with
  | batch commands => exact .inr (.inr ⟨commands, rfl⟩)
  | decrement key amount =>
    cases hneg : Numeral.neg? amount with
    | some negated => exact .inl ⟨key, _, .decrement key hneg⟩
    | none =>
      refine .inr (.inl fun s => ?_)
      rw [Store.request, hneg]
  | get key => exact .inl ⟨key, _, .get key⟩
  | set key value ttl => exact .inl ⟨key, _, .set key value ttl⟩
  | getSet key value => exact .inl ⟨key, _, .getSet key value⟩
  | increment key amount => exact .inl ⟨key, _, .increment key amount⟩
  | expire key ttl => exact .inl ⟨key, _, .expire key ttl⟩
  | contains key => exact .inl ⟨key, _, .contains key⟩
  | delete key => exact .inl ⟨key, _, .delete key⟩
  | setAdd key member => exact .inl ⟨key, _, .setAdd key member⟩
  | setRemove key member => exact .inl ⟨key, _, .setRemove key member⟩
  | setMembers key => exact .inl ⟨key, _, .setMembers key⟩

/-- **A direct operation changes its key exactly if its rule touches it**, by the answer. -/
theorem Rule.Decides.shows (h : Decides now r key rule) :
    ∃ shown, rule.Shows shown ∧ ∀ a k, r.Changes a k ↔ k = key ∧ shown a := by
  cases h with
  | get => exact ⟨_, get_shows, fun _ _ => ⟨False.elim, And.right⟩⟩
  | contains => exact ⟨_, contains_shows, fun _ _ => ⟨False.elim, And.right⟩⟩
  | setMembers => exact ⟨_, setMembers_shows, fun _ _ => ⟨False.elim, And.right⟩⟩
  | set _ value ttl => exact ⟨_, set_shows value ttl now, fun _ _ => Iff.rfl⟩
  | getSet _ value => exact ⟨_, getSet_shows value, fun _ _ => Iff.rfl⟩
  | increment _ amount => exact ⟨_, increment_shows key amount, fun _ _ => Iff.rfl⟩
  | decrement => exact ⟨_, increment_shows key _, fun _ _ => Iff.rfl⟩
  | expire _ ttl => exact ⟨_, expire_shows ttl now, fun _ _ => Iff.rfl⟩
  | delete => exact ⟨_, delete_shows, fun _ _ => Iff.rfl⟩
  | setAdd _ member => exact ⟨_, setAdd_shows member, fun _ _ => Iff.rfl⟩
  | setRemove _ member => exact ⟨_, setRemove_shows member, fun _ _ => Iff.rfl⟩

theorem not_changes_error (r : Request) (e : Error) (key : String) : ¬ r.Changes (.error e) key := by
  cases r <;> simp [Request.Changes, Except.isOk, Except.toBool]

end WatchedStore.Memory
