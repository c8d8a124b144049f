import WatchedStore.Proofs.Counter.Add
import WatchedStore.Proofs.Memory.Request
import WatchedStore.Proofs.Text.Numeral

/-!
# Arithmetic on a counter, one operation at a time

A counter adds in two ways. `incrementAndGet` and its kind are one request; `getAndAdd` and its kind run in
rounds and add by a commit. An `Errand` is one such operation of a client, or the construction of another
counter on the key, which reads it and writes nothing, because there is an integer already.

**The law** (`Errand.settles`): as long as a key holds an integer for good whenever an errand calls, all
calls of the errand leave the key alone but one, which adds exactly the errand's amount; and the errand
fails if it has not made that call, and otherwise answers by the integer that it met there.
-/

namespace WatchedStore.Memory

open WatchedStore.Action WatchedStore.Counter

/-- **What a client does under a key**: arithmetic, or the construction of a counter that keeps what is
there. -/
inductive Errand where
  | incrementAndGet
  | decrementAndGet
  | addAndGet (delta : Int64)
  | getAndAdd (delta : Int64)
  | getAndIncrement
  | getAndDecrement
  | create (settings : CounterSettings) (draw : Nat → Float)

namespace Errand

/-- The errand as it is run on a counter; a construction answers no number. -/
def action (c : Counter) : Errand → Action Transaction (Option Int64)
  | incrementAndGet => some <$> c.incrementAndGet
  | decrementAndGet => some <$> c.decrementAndGet
  | addAndGet delta => some <$> c.addAndGet delta
  | getAndAdd delta => some <$> c.getAndAdd delta
  | getAndIncrement => some <$> c.getAndIncrement
  | getAndDecrement => some <$> c.getAndDecrement
  | create settings draw => (fun _ => none) <$> Counter.create c.key settings .existingOrZero draw

/-- The amount that an errand adds. -/
def delta : Errand → Int64
  | incrementAndGet | getAndIncrement => 1
  | decrementAndGet | getAndDecrement => -1
  | addAndGet delta | getAndAdd delta => delta
  | create .. => 0

/-- Whether an errand is arithmetic. -/
def adds : Errand → Bool
  | create .. => false
  | _ => true

/-- **Whether a call is the one by which an errand adds**: its request, if it was answered by a number, or a
commit that was carried out. -/
def commits (v : Visit) : Errand → Bool
  | incrementAndGet | decrementAndGet | addAndGet _ => v.answer.isOk
  | getAndAdd _ | getAndIncrement | getAndDecrement => v.commits
  | create .. => false

/-- The integer before the addition, by what an errand answers. -/
def previous (answer : Int64) : Errand → Int
  | getAndAdd _ | getAndIncrement | getAndDecrement | create .. => answer.toInt
  | e => answer.toInt - e.delta.toInt

end Errand

/-- **A key that holds an integer for good.** -/
def State.HoldsInteger (s : State) (key : String) (n : Int64) : Prop :=
  ∃ b, s.entries[key]? = some ⟨.bytes b, none⟩ ∧ decode key b = .ok n

/-- A call by which an errand adds: the key holds an integer, by which the errand answers, and holds the
sum afterwards. -/
structure Errand.Books (key : String) (e : Errand) (answer : Int64) (v : Visit) : Prop where
  adds : e.adds = true
  commits : e.commits v = true
  shifts : ∃ n sum, v.store.state.HoldsInteger key n ∧ v.left.state.HoldsInteger key sum ∧
    sum.toInt = n.toInt + e.delta.toInt ∧ e.previous answer = n.toInt

/-- A call that leaves a key alone, and by which an errand does not add. -/
structure Errand.Idles (key : String) (e : Errand) (v : Visit) : Prop where
  spares : v.after key = v.before key
  not_commits : e.commits v = false

/-- **What the calls of an errand amount to so far**, and what it may still answer: none of them adds, and
then arithmetic has not succeeded; or the last one does, and then it can only succeed. -/
inductive Errand.Settles (key : String) (e : Errand)
    (left : Program Transaction (Except Error (Option Int64))) : List Visit → Prop
  | idle {visits : List Visit} (hidle : ∀ v ∈ visits, e.Idles key v)
    (hleft : ∀ answer, left = .done (.ok answer) → e.adds = false) : Settles key e left visits
  | books {first : List Visit} {last : Visit} {answer : Int64} (hidle : ∀ v ∈ first, e.Idles key v)
    (hbooks : e.Books key answer last)
    (hleft : ∀ result, left = .done result → result = .ok (some answer)) :
    Settles key e left (first ++ [last])

/-! ## Integers for good -/

section HoldsInteger

variable {s s' : State} {key : String} {n n' : Int64} {now : Instant}

theorem State.HoldsInteger.unique (h : s.HoldsInteger key n) (h' : s.HoldsInteger key n') : n = n' := by
  obtain ⟨b, hentry, hb⟩ := h
  obtain ⟨b', hentry', hb'⟩ := h'
  rw [hentry] at hentry'
  cases hentry'
  rw [hb] at hb'
  cases hb'
  rfl

/-- What leaves alone what a key holds leaves it an integer for good. -/
theorem State.HoldsInteger.of_live (h : s.HoldsInteger key n) (hsame : s'.live now key = s.live now key) :
    s'.HoldsInteger key n := by
  obtain ⟨b, hentry, hb⟩ := h
  rw [State.live_of_forever hentry] at hsame
  exact ⟨b, State.entries_of_live hsame, hb⟩

end HoldsInteger

variable {e : Errand} {c : Counter} {t t' : Instant} {s s' : Store} {key : String} {n : Int64}
  {visits : List Visit} {p' : Program Transaction (Except Error (Option Int64))}

/-! ## One request -/

/-- A program that makes one call and then no other. -/
theorem Errand.settles_of_call {c : Call Transaction}
    {next : Except Error c.Answer → Program Transaction (Except Error (Option Int64))}
    (hcall : ∀ t₁ s₁ n, s₁.state.HoldsInteger key n →
      (e.Idles key ⟨t₁, s₁, c⟩ ∧ ∃ result, Ends result (next (s₁.call t₁ c).1) ∧
        ∀ answer, result = .ok answer → e.adds = false) ∨
      ∃ answer, e.Books key answer ⟨t₁, s₁, c⟩ ∧
        Ends (.ok (some answer)) (next (s₁.call t₁ c).1))
    (hheld : ∀ v ∈ visits, ∃ n, v.store.state.HoldsInteger key n)
    (hc : Course t' s' p' t s (.call c next) visits) : e.Settles key p' visits := by
  rcases hc.call_inv with ⟨rfl, rfl⟩ | ⟨t₁, s₁, rest, -, rfl, hrest⟩
  · exact .idle (fun _ hv => absurd hv List.not_mem_nil) fun _ h => by cases h
  obtain ⟨n, hn⟩ := hheld _ List.mem_cons_self
  rcases hcall t₁ s₁ n hn with ⟨hidle, result, hend, hresult⟩ | ⟨answer, hbooks, hend⟩
  · obtain ⟨rfl, hleft⟩ := hend.course hrest
    exact .idle (List.forall_mem_singleton.mpr hidle) fun answer h => hresult answer (hleft _ h).symm
  · obtain ⟨rfl, hleft⟩ := hend.course hrest
    rw [← List.nil_append [_]]
    exact .books (fun _ hv => absurd hv List.not_mem_nil) hbooks hleft

/-- **An addition in one step** to an integer that a key holds for good: it fails and changes what no key
holds, or it is answered by the sum and leaves that for good. -/
def AddsOrFails (key : String) (n amount : Int64) (now : Instant) (s : Store) (value : α → Int64)
    (out : Except Error α × Store) : Prop :=
  (∃ err, out.1 = .error err ∧ out.2.state.live now = s.state.live now) ∨
    ∃ sum, out.1 = .ok sum ∧ out.2.state.HoldsInteger key (value sum) ∧
      (value sum).toInt = n.toInt + amount.toInt

theorem locked_increment (h : s.state.HoldsInteger key n) (now : Instant) (amount : Int64) :
    AddsOrFails key n amount now s id
      (s.locked fun state => state.follow (Rule.increment key amount) key s.maxEntries now) := by
  obtain ⟨b, hentry, hb⟩ := h
  cases hp : s.poisoned with
  | true =>
    rw [Store.locked_of_poisoned hp]
    exact .inl ⟨_, rfl, rfl⟩
  | false =>
    have hrule : Rule.increment key amount (s.state.live now key)
        ((s.state.purge key now).isFull key s.maxEntries) =
          Rule.store (Numeral.sum? n amount) none := by
      rw [State.live_of_forever hentry]
      simp only [Rule.increment, hb]
    rw [Store.locked_of_sound hp, State.follow_fst, hrule]
    cases hsum : Numeral.sum? n amount with
    | none =>
      rw [hsum] at hrule
      exact .inl ⟨.overflow, rfl, State.live_follow_keep _ _ (congrArg Prod.snd hrule)⟩
    | some sum =>
      rw [hsum] at hrule
      have hput := State.live_follow_put _ _ (congrArg Prod.snd hrule) rfl
      have hheld := (congrFun hput key).trans (if_pos rfl)
      exact .inr ⟨sum, rfl, ⟨encode sum, State.entries_of_live hheld, decode_encode key sum⟩,
        toInt_of_sum? hsum⟩

theorem request_increment (h : s.state.HoldsInteger key n) (now : Instant) (amount : Int64) :
    AddsOrFails key n amount now s id (s.request now (.increment key amount)) := by
  rw [Store.request_eq_follow (.increment key amount)]
  exact locked_increment h now amount

theorem request_decrement (h : s.state.HoldsInteger key n) (now : Instant) :
    AddsOrFails key n (-1) now s id (s.request now (.decrement key 1)) := by
  have hneg : Numeral.neg? 1 = some (-1) := rfl
  rw [Store.request_eq_follow (.decrement key hneg)]
  exact locked_increment h now (-1)

/-- An errand that is one request, if the request adds to an integer that is held for good. -/
theorem Errand.settles_of_request (r : Request) (value : r.Answer → Int64) (operation : String)
    (hadds : e.adds = true) (hcommits : ∀ v, e.commits v = v.answer.isOk)
    (hprevious : ∀ answer, e.previous answer = answer.toInt - e.delta.toInt)
    (hrequest : ∀ now (s : Store) n, s.state.HoldsInteger key n →
      AddsOrFails key n e.delta now s value (s.request now r))
    (hheld : ∀ v ∈ visits, ∃ n, v.store.state.HoldsInteger key n)
    (hc : Course t' s' p' t s (ExceptT.run (some <$> c.askAndTell r value operation)) visits) :
    e.Settles key p' visits := by
  rw [run_map, askAndTell_calls] at hc
  refine Errand.settles_of_call (fun t₁ s₁ n hn => ?_) hheld hc
  rcases hrequest t₁ s₁ n hn with ⟨err, herror, hlive⟩ | ⟨sum, hsum, hleft, hshift⟩
  · refine .inl ⟨⟨congrFun hlive key, ?_⟩, .error err, ?_, fun _ h => by cases h⟩
    · rw [hcommits]
      simp only [Visit.answer, Store.call, herror]
      rfl
    · simp only [Store.call, herror]
      exact .done
  · refine .inr ⟨value sum, ⟨hadds, ?_, n, value sum, hn, hleft, hshift, ?_⟩, ?_⟩
    · rw [hcommits]
      simp only [Visit.answer, Store.call, hsum]
      rfl
    · rw [hprevious, hshift]
      exact Int.add_sub_cancel ..
    · simp only [Store.call, hsum]
      exact .report .done

/-! ## Rounds -/

/-- What the result of an errand in rounds stands for. It does not succeed without a number. -/
def fetchEffect (key : String) (delta : Int64) :
    Except Error (Option Int64) → Option (Visit → Prop)
  | .ok (some previous) => some (Visit.Adds key previous delta)
  | .ok none => some fun _ => False
  | .error _ => none

theorem fetch_lands {delta : Int64} {operation : Action Transaction Int64}
    (hoperation : Fetches c delta operation) (hs : s.WellFormed)
    (hc : Course t' s' p' t s (ExceptT.run (some <$> operation)) visits) :
    Lands (fetchEffect c.key delta) p' visits := by
  rw [run_map] at hc
  refine Lands.bind (addEffect c.key delta) (fun _ _ _ _ hq => hoperation.lands hs hq) ?_ ?_ hc
  · intro r did hr
    match r, hr with
    | .ok previous, hr => exact ⟨.ok (some previous), .done, hr⟩
  · intro r t₁ s₁ rest hr _ hrest
    match r, hr, hrest with
    | .error err, _, hrest =>
      obtain ⟨rfl, rfl⟩ := hrest.done_inv
      refine .nil fun r h => ?_
      cases h
      rfl

/-- The calls of an addition in rounds: no direct requests, and commits of one increment. -/
def InAddition (key : String) (delta : Int64) : Call Transaction → Prop
  | .request _ => False
  | .exec _ commands => commands = [.increment key delta]
  | .watch _ | .txGet .. | .discard _ => True

theorem addRound_only (c : Counter) (delta : Int64) :
    Only (InAddition c.key delta) (ExceptT.run (c.addRound delta)) := by
  have hread : ∀ tx, Only (InAddition c.key delta) (ExceptT.run (c.readWatched tx)) := by
    intro tx
    rw [readWatched_calls]
    refine .call trivial fun a => ?_
    cases a.bind c.ofStored with
    | ok n => exact .done
    | error e => exact .call trivial fun _ => .done
  rw [addRound_calls]
  refine .call trivial fun a => ?_
  cases a with
  | error e => exact .done
  | ok tx =>
    refine (hread tx).bind fun r => ?_
    cases r with
    | error e => exact .done
    | ok previous =>
      refine .call rfl fun a => ?_
      rcases a with e | _ | replies
      · exact .done
      · exact .done
      · simp only [afterCommit, andThen]
        split
        · exact .report .done
        · exact .done

theorem addRounds_only (c : Counter) (delta : Int64) (b : Backoff) :
    Only (InAddition c.key delta) (ExceptT.run (c.addRounds delta b)) := by
  induction b using addRounds.induct c with
  | _ b ih =>
    rw [addRounds_calls]
    refine (addRound_only c delta).bind fun r => ?_
    rcases r with e | _ | previous
    · exact .done
    · simp only [andThen]
      split
      · rename_i delay counted hnext
        exact .report (.pause (ih delay counted hnext))
      · exact .report .done
    · exact .done

theorem fetch_only {delta : Int64} {operation : Action Transaction Int64}
    (hoperation : Fetches c delta operation) :
    Only (InAddition c.key delta) (ExceptT.run (some <$> operation)) := by
  rw [run_map]
  refine Only.bind ?_ fun _ => .done
  cases hoperation <;> exact addRounds_only ..

/-- An increment that is carried out in a commit has a sum that fits. -/
theorem Visit.sum_of_commits {v : Visit} {tx : Transaction} {delta : Int64}
    (hcall : v.call = .exec tx [.increment key delta]) (hcommits : v.commits = true)
    (hn : v.store.state.HoldsInteger key n) : ∃ sum, Numeral.sum? n delta = some sum := by
  obtain ⟨now, s, call⟩ := v
  cases hcall
  obtain ⟨b, hentry, hb⟩ := hn
  cases hsum : Numeral.sum? n delta with
  | some sum => exact ⟨sum, rfl⟩
  | none =>
    -- otherwise the commit is carried out, but its only reply is an error
    obtain ⟨replies, hreplies⟩ : ∃ replies, replies? ⟨now, s, .exec tx [.increment key delta]⟩ =
        some replies := by
      refine Option.ne_none_iff_exists'.mp fun hnone => ?_
      simp only [commits, hnone, Bool.false_eq_true] at hcommits
    obtain ⟨hsound, hpass⟩ := passes_of_replies rfl hreplies
    obtain ⟨s₁, hs₁⟩ : ∃ s₁, s₁ = (s.state.unchanged tx.watched now).2 := ⟨_, rfl⟩
    have hlive : s₁.live now key = some ⟨.bytes b, none⟩ := by
      rw [hs₁, (s.state.unchanged_purges now tx.watched).live, State.live_of_forever hentry]
    have hanswer : (s₁.apply (.increment key delta) s.maxEntries now).1 = .error .overflow := by
      rw [s₁.apply_eq_follow, State.follow_fst, Command.key, hlive, State.isFull_of_live _ hlive]
      simp only [Rule.ofCommand, Rule.map, Rule.increment, hb, hsum, Rule.store]
      rfl
    have hbatch := s₁.applyAll_cons s.maxEntries now (.increment key delta) []
      fun reason h => by rw [hanswer] at h; cases h
    have hexec : (s.state.exec tx.watched [.increment key delta] s.maxEntries now).1 =
        .ok (some [.ofError .overflow]) := by
      rw [State.exec_eq, if_pos (show (s.state.unchanged tx.watched now).1 = true from hpass), ← hs₁,
        hbatch, hanswer]
      rfl
    have hnot : commits ⟨now, s, .exec tx [.increment key delta]⟩ = false := by
      simp only [commits, replies?, answer, call_exec_of_sound hsound, hexec, Call.replies?]
      rfl
    rw [hnot] at hcommits
    cases hcommits

/-- A commit that adds to an integer that is held for good. -/
theorem Errand.books_of_adds {v : Visit} {tx : Transaction} {answer : Int64} (hadds : e.adds = true)
    (hown : e.commits v = v.commits) (hprevious : e.previous answer = answer.toInt)
    (hcommits : v.commits = true) (hcall : v.call = .exec tx [.increment key e.delta])
    (hn : v.store.state.HoldsInteger key n) (h : v.Adds key answer e.delta) :
    e.Books key answer v := by
  obtain ⟨b, hentry, -⟩ := hn
  obtain ⟨b', until_, hbefore, hb, hwrites⟩ := h
  rw [Visit.before, State.live_of_forever hentry] at hbefore
  cases hbefore
  have hanswer : v.store.state.HoldsInteger key answer := ⟨b, hentry, hb⟩
  obtain ⟨sum, hsum⟩ := Visit.sum_of_commits hcall hcommits hanswer
  have hshift := toInt_of_sum? hsum
  refine ⟨hadds, hown.trans hcommits, answer, sum, hanswer, ?_, hshift, hprevious⟩
  have hheld := State.entries_of_live hwrites.held
  rw [← hshift] at hheld
  exact ⟨encode sum, hheld, decode_encode key sum⟩

/-- An errand in rounds. -/
theorem Errand.settles_of_fetch {operation : Action Transaction Int64} (hadds : e.adds = true)
    (hown : ∀ v, e.commits v = v.commits) (hprevious : ∀ answer, e.previous answer = answer.toInt)
    (hoperation : Fetches c e.delta operation) (hs : s.WellFormed)
    (hheld : ∀ v ∈ visits, ∃ n, v.store.state.HoldsInteger c.key n)
    (hc : Course t' s' p' t s (ExceptT.run (some <$> operation)) visits) :
    e.Settles c.key p' visits := by
  have hcalls := hc.only (fetch_only hoperation)
  have hidles : ∀ v : Visit, v.Idle → e.Idles c.key v := fun v hv =>
    ⟨congrFun hv.quiet c.key, (hown v).trans hv.not_commits⟩
  cases fetch_lands hoperation hs hc with
  | idle hidle hleft =>
    refine .idle (fun v hv => hidles v (hidle v hv)) fun answer hdone => ?_
    have hnone := hleft _ hdone
    cases answer <;> cases hnone
  | @commit first last r did hidle hr hcommits hdid hleft =>
    match r, hr with
    | .ok none, hr =>
      cases hr
      exact hdid.elim
    | .ok (some answer), hr =>
      cases hr
      have hmem : last ∈ first ++ [last] := List.mem_append_right _ List.mem_cons_self
      obtain ⟨n, hn⟩ := hheld last hmem
      obtain ⟨tx, hcall⟩ : ∃ tx, last.call = .exec tx [.increment c.key e.delta] := by
        obtain ⟨tx, commands, hexec⟩ := hdid.choose_spec.choose_spec.2.2.commit
        have hin := hcalls last hmem
        rw [hexec] at hin
        exact ⟨tx, hexec.trans (congrArg _ hin)⟩
      refine .books (fun v hv => hidles v (hidle v hv)) ?_ hleft
      exact Errand.books_of_adds hadds (hown last) (hprevious answer) hcommits hcall hn hdid

/-! ## Construction -/

/-- A read changes what no key holds. -/
theorem live_request_get (s : Store) (key : String) (now : Instant) :
    (s.request now (.get key)).2.state.live now = s.state.live now :=
  live_call_txGet s ⟨[]⟩ key now

theorem request_get_of_held (h : s.state.HoldsInteger key n) (now : Instant) :
    (∃ err, (s.request now (.get key)).1 = .error err) ∨
      ∃ b, (s.request now (.get key)).1 = .ok (some b) := by
  obtain ⟨b, hentry, -⟩ := h
  cases hp : s.poisoned with
  | true => exact .inl ⟨_, congrArg Prod.fst (call_txGet_of_poisoned hp ⟨[]⟩ key now)⟩
  | false =>
    have hread := congrArg Prod.fst (call_txGet_of_sound hp ⟨[]⟩ key now)
    rw [State.live_of_forever hentry] at hread
    exact .inr ⟨b, hread⟩

/-- A construction leaves an integer alone. -/
theorem Errand.settles_of_create {settings : CounterSettings} {draw : Nat → Float}
    (hheld : ∀ v ∈ visits, ∃ n, v.store.state.HoldsInteger c.key n)
    (hc : Course t' s' p' t s (ExceptT.run ((Errand.create settings draw).action c)) visits) :
    (Errand.create settings draw).Settles c.key p' visits := by
  rw [Errand.action, run_map] at hc
  cases hkey : c.key.isEmpty with
  | true =>
    rw [create_of_isEmpty hkey] at hc
    obtain ⟨rfl, rfl⟩ := hc.done_inv
    exact .idle (fun _ hv => absurd hv List.not_mem_nil) fun _ h => by cases h
  | false =>
    rw [create_calls hkey] at hc
    refine Errand.settles_of_call (fun t₁ s₁ n hn => .inl ⟨⟨?_, rfl⟩, ?_⟩) hheld hc
    · exact congrFun (live_request_get s₁ c.key t₁) c.key
    · rcases request_get_of_held hn t₁ with ⟨err, herror⟩ | ⟨b, hb⟩
      · simp only [Store.call, herror]
        exact ⟨_, .done, fun _ h => by cases h⟩
      · simp only [Store.call, hb]
        exact ⟨_, .done, fun _ _ => rfl⟩

/-! ## All errands -/

/-- **What an errand amounts to**, in whatever course, as long as its key holds an integer for good when it
calls. -/
theorem Errand.settles (hs : s.WellFormed)
    (hheld : ∀ v ∈ visits, ∃ n, v.store.state.HoldsInteger c.key n)
    (hc : Course t' s' p' t s (ExceptT.run (e.action c)) visits) : e.Settles c.key p' visits := by
  cases e with
  | incrementAndGet =>
    exact Errand.settles_of_request (.increment c.key 1) id "increment_and_get" rfl (fun _ => rfl)
      (fun _ => rfl) (fun now s n hn => request_increment hn now 1) hheld hc
  | decrementAndGet =>
    exact Errand.settles_of_request (.decrement c.key 1) id "decrement_and_get" rfl (fun _ => rfl)
      (fun _ => rfl) (fun now s n hn => request_decrement hn now) hheld hc
  | addAndGet delta =>
    exact Errand.settles_of_request (.increment c.key delta) id "add_and_get" rfl (fun _ => rfl)
      (fun _ => rfl) (fun now s n hn => request_increment hn now delta) hheld hc
  | getAndAdd delta =>
    exact Errand.settles_of_fetch rfl (fun _ => rfl) (fun _ => rfl) (.add delta) hs hheld hc
  | getAndIncrement =>
    exact Errand.settles_of_fetch rfl (fun _ => rfl) (fun _ => rfl) .increment hs hheld hc
  | getAndDecrement =>
    exact Errand.settles_of_fetch rfl (fun _ => rfl) (fun _ => rfl) .decrement hs hheld hc
  | create settings draw => exact Errand.settles_of_create hheld hc

end WatchedStore.Memory
