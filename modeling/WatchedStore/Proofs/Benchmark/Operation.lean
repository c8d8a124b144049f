import WatchedStore.Benchmark.Basic
import WatchedStore.Proofs.Clients.Served
import WatchedStore.Proofs.Counter.Errand
import WatchedStore.Proofs.Counter.Swap

/-!
# One operation of a benchmark

An operation of a worker adds one in one of three ways: by a request, in rounds, or by swapping until a swap
succeeds. By which call it has added depends on the way (`Mode.scores`); that it has added shows in its result.

**The laws**: all calls of an operation leave its key alone, up to one that adds one to the integer there,
and that is the last one; the operation succeeds exactly if it has made it (`Mode.attempts`). A store is
`Ready` under a key if its lock is sound and the key holds an integer with room for one more. An operation
that meets no other store succeeds by a request, and by swapping as soon as it ends (`Mode.achieves`); in
rounds it may still give up.
-/

namespace WatchedStore.Benchmark

open WatchedStore.Action WatchedStore.Counter WatchedStore.Memory

/-- **Whether a call is the one by which an operation adds**: its request, if it was answered by a number, or
a commit that was carried out. -/
def Mode.scores (v : Visit) : Mode → Bool
  | .increment => v.answer.isOk
  | .getAndAdd | .swapLoop => v.commits

/-- A call that adds one to an integer that a key holds for good, as long as the sum fits. -/
def Raises (key : String) (v : Visit) : Prop :=
  ∀ n, v.store.state.HoldsInteger key n → n.toInt < 0x7FFFFFFFFFFFFFFF →
    ∃ sum, v.left.state.HoldsInteger key sum ∧ sum.toInt = n.toInt + 1

/-- A call by which an operation adds. -/
structure Scores (mode : Mode) (key : String) (v : Visit) : Prop where
  scores : mode.scores v = true
  raises : Raises key v

/-- A call by which an operation does not add. It leaves an integer alone. -/
structure Misses (mode : Mode) (key : String) (v : Visit) : Prop where
  not_scores : mode.scores v = false
  spares : ∀ n, v.store.state.HoldsInteger key n → v.after key = v.before key

/-- **What the calls of an operation amount to so far**, and what it may still come to: none of them adds,
and then it has not succeeded; or the last one does, and then it can only succeed. -/
inductive Attempts (mode : Mode) (key : String) (left : Program Transaction (Option Attempt)) :
    List Visit → Prop
  | missed {visits : List Visit} (hmiss : ∀ v ∈ visits, Misses mode key v)
    (hleft : ∀ a, left = .done (some a) → a.result ≠ .ok ()) : Attempts mode key left visits
  | scored {first : List Visit} {last : Visit} (hmiss : ∀ v ∈ first, Misses mode key v)
    (hlast : Scores mode key last)
    (hleft : ∀ r, left = .done r → ∃ misses, r = some ⟨.ok (), misses⟩) :
    Attempts mode key left (first ++ [last])

/-- **A store in which an operation can succeed**: the lock is sound, and the key holds an integer for good
with room for one more. -/
def Ready (key : String) (s : Store) : Prop :=
  s.poisoned = false ∧ ∃ n, s.state.HoldsInteger key n ∧ n.toInt < 0x7FFFFFFFFFFFFFFF

variable {c : Counter} {key : String} {mode : Mode} {t t' : Instant} {s s' : Store}
  {visits : List Visit} {left : Program Transaction (Option Attempt)}

/-! ## One more -/

theorem toInt_succ {n : Int64} (h : n.toInt < 0x7FFFFFFFFFFFFFFF) : (n + 1).toInt = n.toInt + 1 := by
  have hlow := n.le_toInt
  have hone : (1 : Int64).toInt = 1 := rfl
  rw [Int64.toInt_add, hone]
  exact Int.bmod_eq_of_le (by omega) (by omega)

theorem sum?_succ {n : Int64} (h : n.toInt < 0x7FFFFFFFFFFFFFFF) :
    ∃ sum, Numeral.sum? n 1 = some sum := by
  have hlow := n.le_toInt
  have hone : (1 : Int64).toInt = 1 := rfl
  unfold Numeral.sum?
  dsimp only
  rw [if_pos ⟨by omega, by omega⟩]
  exact ⟨_, rfl⟩

/-- What was held before a call for good is what it met there. -/
theorem met_of_before {v : Visit} {n m : Int64} {b : Bytes} {until_ : Option Instant}
    (hn : v.store.state.HoldsInteger key n) (hbefore : v.before key = some ⟨.bytes b, until_⟩)
    (hb : decode key b = .ok m) : m = n ∧ until_ = none := by
  obtain ⟨b', hentry, hb'⟩ := hn
  rw [Visit.before, State.live_of_forever hentry] at hbefore
  cases hbefore
  rw [hb] at hb'
  cases hb'
  exact ⟨rfl, rfl⟩

theorem raises_of_adds {v : Visit} {previous : Int64} (h : v.Adds key previous 1) : Raises key v := by
  intro n hn hroom
  obtain ⟨b, until_, hbefore, hb, hwrites⟩ := h
  obtain ⟨rfl, rfl⟩ := met_of_before hn hbefore hb
  have hsum := toInt_succ hroom
  have hheld := State.entries_of_live hwrites.held
  rw [show (1 : Int64).toInt = 1 from rfl, ← hsum] at hheld
  exact ⟨previous + 1, ⟨_, hheld, decode_encode key (previous + 1)⟩, hsum⟩

theorem raises_of_swaps {v : Visit} {current : Int64} (h : v.Swaps key current (current + 1)) :
    Raises key v := by
  intro n hn hroom
  obtain ⟨b, until_, hbefore, hb, hwrites⟩ := h
  obtain ⟨rfl, rfl⟩ := met_of_before hn hbefore hb
  exact ⟨current + 1, ⟨_, State.entries_of_live hwrites.held, decode_encode key (current + 1)⟩,
    toInt_succ hroom⟩

/-! ## What operations call -/

theorem increment_calls (c : Counter) (rounds : Nat) :
    Mode.increment.operation (τ := Transaction) c rounds = .call (.request (.increment c.key 1)) fun
      | .ok sum => .report (c.operated "increment_and_get" sum) (.done (some ⟨.ok (), 0⟩))
      | .error e => .done (some ⟨.error e, 0⟩) := by
  refine congrArg (Program.call _) (funext fun a => ?_)
  cases a <;> rfl

theorem getAndAdd_operation (c : Counter) (rounds : Nat) :
    Mode.getAndAdd.operation (τ := Transaction) c rounds =
      (ExceptT.run (c.getAndAdd 1)).bind fun r => .done (some ⟨r.map fun _ => (), 0⟩) := rfl

/-- How a swap that is over goes on. -/
def afterSwap (c : Counter) (rounds misses : Nat) : Except Error Bool → Program τ (Option Attempt)
  | .ok true => .done (some ⟨.ok (), misses⟩)
  | .ok false => swapUntilDone c rounds (misses + 1)
  | .error e => .done (some ⟨.error e, misses⟩)

/-- How a read goes on to a swap. -/
def afterGet (c : Counter) (rounds misses : Nat) : Except Error Int64 → Program τ (Option Attempt)
  | .ok current =>
    (ExceptT.run (c.compareAndSet current (current + 1))).bind (afterSwap c rounds misses)
  | .error e => .done (some ⟨.error e, misses⟩)

theorem swapUntilDone_succ (c : Counter) (rounds misses : Nat) :
    swapUntilDone (τ := Transaction) c (rounds + 1) misses =
      (ExceptT.run c.get).bind (afterGet c rounds misses) := by
  refine congrArg (Program.bind (ExceptT.run c.get)) (funext fun r => ?_)
  cases r with
  | error e => rfl
  | ok current =>
    refine congrArg (Program.bind (ExceptT.run (c.compareAndSet current (current + 1))))
      (funext fun r => ?_)
    rcases r with e | _ | _ <;> rfl

/-! ## By a request -/

theorem attempts_increment (rounds : Nat)
    (hc : Course t' s' left t s (Mode.increment.operation c rounds) visits) :
    Attempts .increment c.key left visits := by
  rw [increment_calls] at hc
  rcases hc.call_inv with ⟨rfl, rfl⟩ | ⟨t₁, s₁, rest, -, rfl, hrest⟩
  · exact .missed (fun _ hv => absurd hv List.not_mem_nil) fun _ h => by cases h
  have hadds : ∀ n, s₁.state.HoldsInteger c.key n →
      AddsOrFails c.key n 1 t₁ s₁ id (s₁.request t₁ (.increment c.key 1)) := fun n hn =>
    request_increment hn t₁ 1
  cases hanswer : (s₁.request t₁ (.increment c.key 1)).1 with
  | error e =>
    simp only [Store.call, hanswer] at hrest
    obtain ⟨rfl, rfl⟩ := hrest.done_inv
    refine .missed (List.forall_mem_singleton.mpr ⟨?_, fun n hn => ?_⟩) fun a h => by
      cases h
      exact fun h => by cases h
    · simp only [Mode.scores, Visit.answer, Store.call, hanswer]
      rfl
    · rcases hadds n hn with ⟨e', -, hlive⟩ | ⟨sum, hsum, -⟩
      · exact congrFun hlive c.key
      · rw [hanswer] at hsum
        cases hsum
  | ok sum =>
    simp only [Store.call, hanswer] at hrest
    obtain ⟨rfl, hleft⟩ := (Ends.report .done).course hrest
    rw [← List.nil_append [_]]
    refine .scored (fun _ hv => absurd hv List.not_mem_nil) ⟨?_, fun n hn hroom => ?_⟩
      fun r h => ⟨0, hleft r h⟩
    · simp only [Mode.scores, Visit.answer, Store.call, hanswer]
      rfl
    · rcases hadds n hn with ⟨e', herror, -⟩ | ⟨sum', -, hheld, hsum⟩
      · rw [hanswer] at herror
        cases herror
      · exact ⟨sum', hheld, hsum⟩

/-! ## By a commit -/

/-- What a result stands for that tells whether one was added. -/
def raising (yes : α → Bool) (key : String) (r : α) : Option (Visit → Prop) :=
  if yes r then some (Raises key) else none

/-- Whether an operation has ended, and succeeded. -/
def succeeded : Option Attempt → Bool
  | some a => a.result.isOk
  | none => false

theorem eq_of_succeeded {r : Option Attempt} (h : succeeded r = true) :
    ∃ misses, r = some ⟨.ok (), misses⟩ := by
  cases r with
  | none => cases h
  | some a =>
    obtain ⟨result, misses⟩ := a
    cases result with
    | ok u => exact ⟨misses, rfl⟩
    | error e => cases h

/-- Whether a swap was carried out. -/
def swapped : Except Error Bool → Bool
  | .ok swapped => swapped
  | .error _ => false

/-- An operation that adds by a commit, and by one at most. -/
theorem Attempts.of_lands (hmode : ∀ v, mode.scores v = v.commits)
    (h : Lands (raising succeeded key) left visits) : Attempts mode key left visits := by
  have hmisses : ∀ v : Visit, v.Idle → Misses mode key v := fun v hv =>
    ⟨(hmode v).trans hv.not_commits, fun _ _ => congrFun hv.quiet key⟩
  cases h with
  | idle hidle hleft =>
    refine .missed (fun v hv => hmisses v (hidle v hv)) fun a hdone hok => ?_
    have hnone := hleft _ hdone
    simp only [raising, succeeded, hok, Except.isOk, Except.toBool, if_true, reduceCtorEq] at hnone
  | @commit first last r did hidle hr hcommits hdid hleft =>
    unfold raising at hr
    split at hr
    · rename_i hsucceeded
      cases hr
      refine .scored (fun v hv => hmisses v (hidle v hv)) ⟨(hmode last).trans hcommits, hdid⟩
        fun r' h => ?_
      obtain rfl := hleft r' h
      exact eq_of_succeeded hsucceeded
    · cases hr

/-- An operation that tells what another one did. -/
theorem lands_map (yes : α → Bool) {p : Program Transaction α} {f : α → Option Attempt}
    (hyes : ∀ r, succeeded (f r) = yes r)
    (hp : ∀ t₁ s₁ q first, Course t₁ s₁ q t s p first → Lands (raising yes key) q first)
    (hc : Course t' s' left t s (p.bind fun r => .done (f r)) visits) :
    Lands (raising succeeded key) left visits := by
  have hsame : ∀ r, raising succeeded key (f r) = raising yes key r := fun r => by
    rw [raising, hyes, raising]
  refine Lands.bind (raising yes key) hp (fun r did hr => ⟨f r, .done, (hsame r).trans hr⟩) ?_ hc
  intro r t₁ s₁ rest hr _ hrest
  obtain ⟨rfl, rfl⟩ := hrest.done_inv
  refine .nil fun r' h => ?_
  cases h
  exact (hsame r).trans hr

theorem attempts_getAndAdd (hs : s.WellFormed) (rounds : Nat)
    (hc : Course t' s' left t s (Mode.getAndAdd.operation c rounds) visits) :
    Attempts .getAndAdd c.key left visits := by
  rw [getAndAdd_operation] at hc
  refine .of_lands (fun _ => rfl) (lands_map Except.isOk (fun r => ?_)
    (fun t₁ s₁ q first hq => ?_) hc)
  · cases r <;> rfl
  · refine ((Fetches.add 1).lands hs hq).mono (fun r did hr => ?_) fun r hr => ?_
    · match r, hr with
      | .ok previous, hr =>
        cases hr
        exact ⟨_, rfl, fun v => raises_of_adds⟩
    · match r, hr with
      | .error e, _ => rfl

/-- A swap for the next integer adds exactly if it is answered by yes. -/
theorem lands_swap (hs : s.WellFormed) {current : Int64} {left : Program Transaction (Except Error Bool)}
    (hc : Course t' s' left t s (ExceptT.run (c.compareAndSet current (current + 1))) visits) :
    Lands (raising swapped c.key) left visits := by
  refine (compareAndSet_lands hs hc).mono (fun r did hr => ?_) fun r hr => ?_
  · match r, hr with
    | .ok true, hr =>
      cases hr
      exact ⟨_, rfl, fun v => raises_of_swaps⟩
  · match r, hr with
    | .ok false, _ => rfl
    | .error e, _ => rfl

/-- What follows a read, given what the rounds to come amount to. -/
theorem lands_afterGet (hs : s.WellFormed) {rounds misses : Nat} {read : Except Error Int64}
    (hrounds : ∀ t s visits, s.WellFormed →
      Course t' s' left t s (swapUntilDone c rounds (misses + 1)) visits →
        Lands (raising succeeded c.key) left visits)
    (hc : Course t' s' left t s (afterGet c rounds misses read) visits) :
    Lands (raising succeeded c.key) left visits := by
  cases read with
  | error e =>
    obtain ⟨rfl, rfl⟩ := hc.done_inv
    exact .nil fun r h => by cases h; rfl
  | ok current =>
    refine Lands.bind (raising swapped c.key) (fun t₁ s₁ q first => lands_swap hs) ?_ ?_ hc
    · intro r did hr
      match r, hr with
      | .ok true, hr => exact ⟨some ⟨.ok (), misses⟩, .done, hr⟩
    · intro r t₁ s₁ rest hnone hreach hrest
      match r, hnone, hrest with
      | .ok false, _, hrest => exact hrounds t₁ s₁ rest (hreach.wellFormed hs) hrest
      | .error e, _, hrest =>
        obtain ⟨rfl, rfl⟩ := hrest.done_inv
        exact .nil fun r h => by cases h; rfl

theorem lands_swapUntilDone (hs : s.WellFormed) {rounds misses : Nat}
    (hc : Course t' s' left t s (swapUntilDone c rounds misses) visits) :
    Lands (raising succeeded c.key) left visits := by
  induction rounds generalizing misses t s visits with
  | zero =>
    obtain ⟨rfl, rfl⟩ := Course.done_inv hc
    exact .nil fun r h => by cases h; rfl
  | succ rounds ih =>
    rw [swapUntilDone_succ, get_calls] at hc
    rcases hc.call_inv with ⟨rfl, rfl⟩ | ⟨t₁, s₁, rest, hr, rfl, hrest⟩
    · exact .nil fun _ h => by cases h
    have hidle : Visit.Idle ⟨t₁, s₁, .request (.get c.key)⟩ := ⟨live_request_get s₁ c.key t₁, rfl⟩
    have hread := hr.deed (.call (.request (.get c.key)))
    change Lands _ _ ([_] ++ rest)
    refine Lands.append_idle (List.forall_mem_singleton.mpr hidle) ?_
    exact lands_afterGet (hread.wellFormed hs) (fun _ _ _ hs hc => ih hs hc) hrest

/-- **What the calls of an operation amount to**, in whatever course. -/
theorem Mode.attempts (mode : Mode) (hs : s.WellFormed) {rounds : Nat}
    (hc : Course t' s' left t s (mode.operation c rounds) visits) :
    Attempts mode c.key left visits := by
  cases mode with
  | increment => exact attempts_increment rounds hc
  | getAndAdd => exact attempts_getAndAdd hs rounds hc
  | swapLoop => exact .of_lands (fun _ => rfl) (lands_swapUntilDone hs hc)

/-! ## Ready stores -/

section Ready

variable {now : Instant}

theorem Ready.live (h : Ready key s) (now : Instant) :
    ∃ b n, s.state.live now key = some ⟨.bytes b, none⟩ ∧ decode key b = .ok n := by
  obtain ⟨-, n, ⟨b, hentry, hb⟩, -⟩ := h
  exact ⟨b, n, State.live_of_forever hentry now, hb⟩

theorem Ready.increment (h : Ready key s) (now : Instant) :
    ∃ sum, (s.request now (.increment key 1)).1 = .ok sum := by
  obtain ⟨hsound, n, ⟨b, hentry, hb⟩, hroom⟩ := h
  obtain ⟨sum, hsum⟩ := sum?_succ hroom
  refine ⟨sum, ?_⟩
  rw [request_fst_of_sound hsound (.increment key 1), State.live_of_forever hentry]
  simp only [Rule.increment, hb, hsum, Rule.store]
  rfl

/-- A read finds the integer, inside a transaction and outside. -/
theorem Ready.txGet (h : Ready c.key s) (tx : Transaction) (now : Instant) :
    ∃ n, (s.call now (.txGet tx c.key)).1.bind c.ofStored = .ok n := by
  obtain ⟨b, n, hlive, hb⟩ := h.live now
  rw [call_txGet_of_sound h.1, hlive]
  exact ⟨n, hb⟩

theorem Ready.get (h : Ready c.key s) (now : Instant) :
    ∃ n, (s.request now (.get c.key)).1.bind c.ofStored = .ok n :=
  h.txGet ⟨[]⟩ now

/-- A commit that sets the key is refused or carried out. -/
theorem Ready.set (h : Ready key s) (tx : Transaction) (bytes : Bytes) (now : Instant) :
    (s.call now (.exec tx [.set key bytes none])).1 = .ok none ∨
      (s.call now (.exec tx [.set key bytes none])).1 = .ok (some [.status "OK"]) := by
  obtain ⟨b, n, hlive, -⟩ := h.live now
  rw [call_exec_of_sound h.1]
  rw [← (s.state.unchanged_purges now tx.watched).live] at hlive
  have hanswer : ((s.state.unchanged tx.watched now).2.apply (.set key bytes none) s.maxEntries now).1 =
      .ok (.status "OK") := by
    rw [State.apply_eq_follow, State.follow_fst, Command.key, hlive, State.isFull_of_live _ hlive]
    rfl
  have hcalm : ∀ reason, ((s.state.unchanged tx.watched now).2.apply (.set key bytes none)
      s.maxEntries now).1 ≠ .error (.crash reason) := fun reason hcrash => by
    rw [hanswer] at hcrash
    cases hcrash
  have hall : ((s.state.unchanged tx.watched now).2.applyAll [.set key bytes none] s.maxEntries now).1 =
      .ok [.status "OK"] := by
    rw [State.applyAll_cons _ _ _ _ _ hcalm, hanswer]
    rfl
  rw [State.exec_eq]
  split
  · rw [hall]
    exact .inr rfl
  · exact .inl rfl

end Ready

/-! ## Operations that succeed -/

theorem readWatched_achieves (c : Counter) (tx : Transaction) :
    Achieves (Ready c.key) (fun r => ∃ n, r = .ok n) (ExceptT.run (c.readWatched tx)) := by
  rw [readWatched_calls]
  refine .call fun now s hready => ?_
  obtain ⟨n, hn⟩ := hready.txGet tx now
  rw [hn]
  exact .done ⟨n, rfl⟩

/-- A swap is answered, by yes or no. -/
theorem compareAndSet_achieves (c : Counter) (expect update : Int64) :
    Achieves (Ready c.key) (fun r => ∃ yes, r = .ok yes)
      (ExceptT.run (c.compareAndSet expect update)) := by
  obtain ⟨different, refused, heq⟩ := c.compareAndSet_calls (τ := Transaction) expect update
  rw [heq]
  refine .call fun now s hready => ?_
  rw [call_watch_of_sound hready.1]
  refine (readWatched_achieves c _).bind fun r hr => ?_
  obtain ⟨current, rfl⟩ := hr
  change Achieves _ _ (ite _ _ _)
  split
  · exact .call fun now s _ => .report (.done ⟨false, rfl⟩)
  · refine .call fun now s hready => ?_
    rcases hready.set _ (encode update) now with hanswer | hanswer
    · rw [hanswer]
      exact .report (.done ⟨false, rfl⟩)
    · rw [hanswer]
      exact .report (.done ⟨true, rfl⟩)

/-- An operation that has not ended yet, or has succeeded. -/
def Unfailed (r : Option Attempt) : Prop := ∀ a, r = some a → a.result = .ok ()

theorem swapUntilDone_achieves (c : Counter) (rounds misses : Nat) :
    Achieves (Ready c.key) Unfailed (swapUntilDone c rounds misses) := by
  induction rounds generalizing misses with
  | zero => exact .done fun a h => by cases h
  | succ rounds ih =>
    rw [swapUntilDone_succ, get_calls]
    refine .call fun now s hready => ?_
    obtain ⟨current, hcurrent⟩ := hready.get now
    change Achieves _ _ (afterGet c rounds misses ((s.request now (.get c.key)).1.bind c.ofStored))
    rw [hcurrent]
    refine (compareAndSet_achieves c current (current + 1)).bind fun r hr => ?_
    obtain ⟨yes, rfl⟩ := hr
    cases yes with
    | true => exact .done fun a h => by cases h; rfl
    | false => exact ih (misses + 1)

/-- **An operation that meets ready stores does not fail**, unless it adds in rounds. -/
theorem Mode.achieves (hmode : mode ≠ .getAndAdd) (c : Counter) (rounds : Nat) :
    Achieves (Ready c.key) Unfailed (mode.operation c rounds) := by
  cases mode with
  | getAndAdd => exact absurd rfl hmode
  | swapLoop => exact swapUntilDone_achieves c rounds 0
  | increment =>
    rw [increment_calls]
    refine .call fun now s hready => ?_
    obtain ⟨sum, hsum⟩ := hready.increment now
    simp only [Store.call, hsum]
    exact .report (.done fun a h => by cases h; rfl)

end WatchedStore.Benchmark
