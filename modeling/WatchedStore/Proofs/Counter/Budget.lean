import WatchedStore.Proofs.Clients.Exchange
import WatchedStore.Proofs.Counter.Calls

/-!
# Rounds and their budget

The operations of a counter that have to know the value before run in rounds. Here they are taken on any
store at all: it may answer every call as it likes, with any value, with any error, and may refuse any
commit. What is left to say is which calls are made, and when they end.

A `Round` is how far a round got, with the answers: no transaction was opened, or it was given up behind
the read, or a queue was committed. It ends in a commit exactly if a wanted integer was read
(`Round.Proper`). Another round starts only behind a commit that was refused, and only if the policy's
attempts are not spent; these are counted by a `Backoff` (`addRounds_calls`), which counts the first
attempt, too.

**The law** (`rounds_within_budget`): on every store an addition makes at least one round and at most as
many as its policy allows, and answers that it was aborted if all of these were refused; a swap makes one
round. Outside of a commit neither writes anything.
-/

namespace WatchedStore

namespace Counter

open WatchedStore.Action Program

/-- The integer that a read of the key comes to. -/
def ofRead (c : Counter) (read : Except Error (Option Bytes)) : Except Error Int64 := read.bind c.ofStored

/-- **A round**, by how far it got. -/
inductive Round (τ : Type) where
  /-- There is no transaction. -/
  | unopened (e : Error)
  /-- The transaction was given up behind the read. -/
  | givenUp (tx : τ) (read : Except Error (Option Bytes)) (discarded : Except Error Unit)
  /-- A queue was committed behind the read, or refused. -/
  | committed (tx : τ) (read : Except Error (Option Bytes)) (answer : Except Error (Option (List Reply)))

namespace Round

/-- **The calls of a round** on a key, if `queue` is what it commits. -/
def exchanges (key : String) (queue : List Command) : Round τ → List (Exchange τ)
  | .unopened e => [⟨.watch [key], .error e⟩]
  | .givenUp tx read discarded =>
    [⟨.watch [key], .ok tx⟩, ⟨.txGet tx key, read⟩, ⟨.discard tx, discarded⟩]
  | .committed tx read answer =>
    [⟨.watch [key], .ok tx⟩, ⟨.txGet tx key, read⟩, ⟨.exec tx queue, answer⟩]

/-- **A round that commits exactly if it has read a wanted integer.** -/
def Proper (c : Counter) (wanted : Int64 → Prop) : Round τ → Prop
  | .unopened _ => True
  | .givenUp _ read _ => ¬ ∃ n, c.ofRead read = .ok n ∧ wanted n
  | .committed _ read _ => ∃ n, c.ofRead read = .ok n ∧ wanted n

/-- Whether a round has ended in a commit that was refused. -/
def Refused : Round τ → Prop
  | .committed _ _ (.ok none) => True
  | _ => False

/-- What a round of an addition comes to: an error, or the value before, or nothing if it was refused. -/
def added (c : Counter) : Round τ → Except Error (Option Int64)
  | .unopened e => .error e
  | .givenUp _ read _ => (c.ofRead read).map some
  | .committed _ read answer => answer.bind fun
    | none => .ok none
    | some replies => (Reply.check replies).bind fun _ => (c.ofRead read).map some

/-- What the round of a swap comes to. -/
def swapped (c : Counter) : Round τ → Except Error Bool
  | .unopened e => .error e
  | .givenUp _ read discarded => (c.ofRead read).bind fun _ => discarded.map fun _ => false
  | .committed _ _ answer => answer.bind fun
    | none => .ok false
    | some replies => (Reply.check replies).bind fun _ => .ok true

variable {c : Counter} {round : Round τ}

/-- A round asks for nothing directly. -/
theorem call_ne_request {key : String} {queue : List Command} {x : Exchange τ}
    (h : x ∈ round.exchanges key queue) (r : Request) : x.call ≠ .request r := by
  cases round with
  | unopened e =>
    simp only [exchanges, List.mem_singleton] at h
    subst h
    simp
  | givenUp tx read discarded =>
    simp only [exchanges, List.mem_cons, List.not_mem_nil, or_false] at h
    rcases h with rfl | rfl | rfl <;> simp
  | committed tx read answer =>
    simp only [exchanges, List.mem_cons, List.not_mem_nil, or_false] at h
    rcases h with rfl | rfl | rfl <;> simp

/-- A round comes to nothing exactly if it was refused. -/
theorem added_eq_none_iff (h : round.Proper c fun _ => True) : round.added c = .ok none ↔ round.Refused := by
  cases round with
  | unopened e => simp [added, Refused]
  | givenUp tx read discarded =>
    cases hread : c.ofRead read with
    | error e => simp [added, Refused, hread, Except.map]
    | ok n => exact absurd ⟨n, hread, trivial⟩ h
  | committed tx read answer =>
    obtain ⟨n, hread, -⟩ := h
    rcases answer with e | _ | replies
    · simp [added, Refused, Except.bind]
    · simp [added, Refused, Except.bind]
    · cases hcheck : Reply.check replies <;>
        simp [added, Refused, Except.bind, Except.map, hread, hcheck]

end Round

/-! ## What a read comes to -/

theorem ofStored_ne_aborted (c : Counter) (stored : Option Bytes) (key : String) (n : Nat) :
    c.ofStored stored ≠ .error (.transactionAborted key n) := by
  intro h
  cases stored with
  | none => cases h
  | some b =>
    simp only [ofStored, decode] at h
    split at h <;> cases h

theorem check_ne_aborted (replies : List Reply) (key : String) (n : Nat) :
    Reply.check replies ≠ .error (.transactionAborted key n) := by
  intro h
  unfold Reply.check at h
  split at h <;> cases h

theorem eq_of_ofRead_aborted {c : Counter} {read : Except Error (Option Bytes)} {key : String} {n : Nat}
    (h : c.ofRead read = .error (.transactionAborted key n)) :
    read = .error (.transactionAborted key n) := by
  cases read with
  | error e =>
    cases h
    rfl
  | ok stored => exact absurd h (c.ofStored_ne_aborted stored key n)

/-- **A counter does not make the error up** that its rounds were aborted: a round that comes to it was told
so by one of its calls. -/
theorem Round.exists_of_added_aborted {c : Counter} {round : Round τ} (queue : List Command) {key : String}
    {n : Nat} (h : round.added c = .error (.transactionAborted key n)) :
    ∃ x ∈ round.exchanges c.key queue, x.error? = some (.transactionAborted key n) := by
  have hread : ∀ {read : Except Error (Option Bytes)},
      (c.ofRead read).map some = .error (.transactionAborted key n) →
      read = .error (.transactionAborted key n) := by
    intro read hread
    cases hvalue : c.ofRead read with
    | error e =>
      rw [hvalue] at hread
      cases hread
      exact eq_of_ofRead_aborted hvalue
    | ok m =>
      rw [hvalue] at hread
      cases hread
  cases round with
  | unopened e =>
    cases h
    exact ⟨_, List.mem_singleton_self _, rfl⟩
  | givenUp tx read discarded =>
    obtain rfl := hread h
    exact ⟨_, List.mem_cons_of_mem _ List.mem_cons_self, rfl⟩
  | committed tx read answer =>
    rcases answer with e | _ | replies
    · cases h
      exact ⟨_, List.mem_cons_of_mem _ (List.mem_cons_of_mem _ List.mem_cons_self), rfl⟩
    · cases h
    · cases hcheck : Reply.check replies with
      | error e =>
        simp only [added, Except.bind, hcheck, Except.error.injEq] at h
        exact absurd (h ▸ hcheck) (check_ne_aborted replies key n)
      | ok _ =>
        simp only [added, Except.bind, hcheck] at h
        obtain rfl := hread h
        exact ⟨_, List.mem_cons_of_mem _ List.mem_cons_self, rfl⟩

/-! ## One round -/

section Runs

variable {τ α : Type} {c : Counter} {xs : List (Exchange τ)}

/-- **A round up to where it commits or gives up.** -/
theorem opened_runs {k : τ → Int64 → Program τ (Except Error α)} {r : Except Error α}
    (h : Runs (c.opened k) xs r) :
    (∃ e, xs = [⟨.watch [c.key], .error e⟩] ∧ r = .error e) ∨
      ∃ (tx : τ) (read : Except Error (Option Bytes)) (rest : List (Exchange τ)),
        xs = ⟨.watch [c.key], .ok tx⟩ :: ⟨.txGet tx c.key, read⟩ :: rest ∧
        ((∃ (e : Error) (discarded : Except Error Unit), c.ofRead read = .error e ∧ rest = [⟨.discard tx, discarded⟩] ∧
            r = .error e) ∨
          ∃ n, c.ofRead read = .ok n ∧ Runs (k tx n) rest r) := by
  unfold opened at h
  obtain ⟨opening, behind, rfl, hopened⟩ := runs_call.mp h
  cases opening with
  | error e =>
    obtain ⟨rfl, rfl⟩ := runs_done.mp hopened
    exact .inl ⟨e, rfl, rfl⟩
  | ok tx =>
    obtain ⟨first, last, value, rfl, hread, hlast⟩ := runs_bind.mp hopened
    rw [readWatched_calls] at hread
    obtain ⟨read, rest, rfl, hafter⟩ := runs_call.mp hread
    refine .inr ⟨tx, read, rest ++ last, rfl, ?_⟩
    replace hafter : Runs (afterRead tx (c.ofRead read)) rest value := hafter
    cases hvalue : c.ofRead read with
    | error e =>
      rw [hvalue] at hafter
      obtain ⟨discarded, _, rfl, hdone⟩ := runs_call.mp hafter
      obtain ⟨rfl, rfl⟩ := runs_done.mp hdone
      obtain ⟨rfl, rfl⟩ := runs_done.mp hlast
      exact .inl ⟨e, discarded, rfl, rfl, rfl⟩
    | ok n =>
      rw [hvalue] at hafter
      obtain ⟨rfl, rfl⟩ := runs_done.mp hafter
      exact .inr ⟨n, rfl, hlast⟩

/-- **What a commit comes to**, if nothing is called behind it. -/
theorem afterCommit_runs {carriedOut refused : Program τ (Except Error α)} {r r₁ r₂ : Except Error α}
    {answer : Except Error (Option (List Reply))} (hcarried : Runs carriedOut xs r → xs = [] ∧ r = r₁)
    (hrefused : Runs refused xs r → xs = [] ∧ r = r₂) (h : Runs (afterCommit carriedOut refused answer) xs r) :
    xs = [] ∧ r = answer.bind fun
      | none => r₂
      | some replies => (Reply.check replies).bind fun _ => r₁ := by
  rcases answer with e | _ | replies
  · exact runs_done.mp h
  · exact hrefused h
  · simp only [afterCommit, andThen] at h
    cases hcheck : Reply.check replies with
    | error e =>
      rw [hcheck] at h
      simpa [Except.bind, hcheck] using runs_done.mp h
    | ok _ =>
      rw [hcheck] at h
      simpa [Except.bind, hcheck] using hcarried h

/-- **One attempt to add makes one round**, and is told by it. -/
theorem addRound_runs {delta : Int64} {r : Except Error (Option Int64)}
    (h : Runs (ExceptT.run (c.addRound (τ := τ) delta)) xs r) :
    ∃ round : Round τ, xs = round.exchanges c.key [.increment c.key delta] ∧
      (round.Proper c fun _ => True) ∧ r = round.added c := by
  rw [addRound_calls] at h
  rcases opened_runs h with ⟨e, rfl, rfl⟩ | ⟨tx, read, rest, rfl, ⟨e, discarded, hread, rfl, rfl⟩ |
    ⟨n, hread, hrest⟩⟩
  · exact ⟨.unopened e, rfl, trivial, rfl⟩
  · refine ⟨.givenUp tx read discarded, rfl, ?_, ?_⟩
    · rintro ⟨n, hn, -⟩
      rw [hread] at hn
      cases hn
    · simp [Round.added, hread, Except.map]
  · obtain ⟨answer, rest, rfl, hend⟩ := runs_call.mp hrest
    obtain ⟨rfl, rfl⟩ := afterCommit_runs (fun h => runs_done.mp (runs_report.mp h)) runs_done.mp hend
    refine ⟨.committed tx read answer, rfl, ⟨n, hread, trivial⟩, ?_⟩
    simp [Round.added, hread, Except.map]

/-- **A swap makes one round**, and is told by it. -/
theorem compareAndSet_runs {expect update : Int64} {r : Except Error Bool}
    (h : Runs (ExceptT.run (c.compareAndSet (τ := τ) expect update)) xs r) :
    ∃ round : Round τ, xs = round.exchanges c.key [.set c.key (encode update) none] ∧
      (round.Proper c fun n => n = expect) ∧ r = round.swapped c := by
  obtain ⟨different, refused, hcalls⟩ := compareAndSet_calls (τ := τ) c expect update
  rw [hcalls] at h
  rcases opened_runs h with ⟨e, rfl, rfl⟩ | ⟨tx, read, rest, rfl, ⟨e, discarded, hread, rfl, rfl⟩ |
    ⟨n, hread, hrest⟩⟩
  · exact ⟨.unopened e, rfl, trivial, rfl⟩
  · refine ⟨.givenUp tx read discarded, rfl, ?_, ?_⟩
    · rintro ⟨n, hn, -⟩
      rw [hread] at hn
      cases hn
    · simp [Round.swapped, hread, Except.bind]
  · by_cases hn : n = expect
    · subst hn
      simp only [bne_self_eq_false, Bool.false_eq_true, if_false] at hrest
      obtain ⟨answer, rest, rfl, hend⟩ := runs_call.mp hrest
      obtain ⟨rfl, rfl⟩ := afterCommit_runs (fun h => runs_done.mp (runs_report.mp h))
        (fun h => runs_done.mp (runs_report.mp h)) hend
      exact ⟨.committed tx read answer, rfl, ⟨n, hread, rfl⟩, rfl⟩
    · have hdiffers : (n != expect) = true := by simpa using hn
      rw [if_pos hdiffers] at hrest
      obtain ⟨discarded, rest, rfl, hend⟩ := runs_call.mp hrest
      refine ⟨.givenUp tx read discarded, ?_, ?_, ?_⟩
      · cases discarded with
        | error e =>
          obtain ⟨rfl, -⟩ := runs_done.mp hend
          rfl
        | ok _ =>
          obtain ⟨rfl, -⟩ := runs_done.mp (runs_report.mp hend)
          rfl
      · rintro ⟨m, hm, rfl⟩
        rw [hread] at hm
        exact hn (Except.ok.inj hm)
      · cases discarded with
        | error e =>
          obtain ⟨-, rfl⟩ := runs_done.mp hend
          simp [Round.swapped, hread, Except.bind, Except.map]
        | ok _ =>
          obtain ⟨-, rfl⟩ := runs_done.mp (runs_report.mp hend)
          simp [Round.swapped, hread, Except.bind, Except.map]

end Runs

/-! ## Many rounds -/

/-- **Rounds of an addition** behind `made` others, at most so many, and what they come to: each but the last
was refused, the last one decides, and if all were refused, there were as many as there may be. -/
structure Attempts (c : Counter) (made budget : Nat) (rounds : List (Round τ)) (result : Except Error Int64) :
    Prop where
  proper : ∀ round ∈ rounds, round.Proper c fun _ => True
  filled : rounds ≠ []
  bounded : rounds.length ≤ budget
  again : ∀ round ∈ rounds.dropLast, round.Refused
  decided : ∀ round, rounds.getLast? = some round → ¬ round.Refused → round.added c = result.map some
  spent : (∀ round ∈ rounds, round.Refused) →
    rounds.length = budget ∧ result = .error (.transactionAborted c.key (made + budget))

section Attempts

variable {τ : Type} {c : Counter} {delta : Int64} {result : Except Error Int64} {made budget : Nat}
  {round : Round τ} {rounds : List (Round τ)}

/-- A round that was not refused is the only one. -/
theorem Attempts.single (hproper : round.Proper c fun _ => True) (hnot : ¬ round.Refused)
    (hresult : round.added c = result.map some) : Attempts c made (budget + 1) [round] result where
  proper := by simpa using hproper
  filled := by simp
  bounded := by simp
  again := by simp
  decided := by
    intro last hlast _
    cases hlast
    exact hresult
  spent h := absurd (h round (List.mem_singleton_self _)) hnot

/-- A round that was refused is the last one if no other is allowed. -/
theorem Attempts.last (hproper : round.Proper c fun _ => True) (hrefused : round.Refused) :
    Attempts c made 1 [round] (.error (.transactionAborted c.key (made + 1))) where
  proper := by simpa using hproper
  filled := by simp
  bounded := by simp
  again := by simp
  decided := by
    intro last hlast hnot
    cases hlast
    exact absurd hrefused hnot
  spent _ := ⟨rfl, rfl⟩

/-- Behind a round that was refused come the others. -/
theorem Attempts.cons (hproper : round.Proper c fun _ => True) (hrefused : round.Refused)
    (h : Attempts c (made + 1) budget rounds result) :
    Attempts c made (budget + 1) (round :: rounds) result where
  proper := List.forall_mem_cons.mpr ⟨hproper, h.proper⟩
  filled := by simp
  bounded := by simpa using h.bounded
  again := by
    rw [List.dropLast_cons_of_ne_nil h.filled]
    exact List.forall_mem_cons.mpr ⟨hrefused, h.again⟩
  decided := by
    intro last hlast
    rw [List.getLast?_cons_of_ne_nil h.filled] at hlast
    exact h.decided last hlast
  spent hall := by
    obtain ⟨hlength, hresult⟩ := h.spent fun round hround => hall round (List.mem_cons_of_mem _ hround)
    refine ⟨by simp [hlength], ?_⟩
    rw [hresult, show made + 1 + budget = made + (budget + 1) by omega]

/-- An addition that says it was aborted had all its rounds refused, or was told so by a call. -/
theorem Attempts.aborted (h : Attempts c made budget rounds result) {key : String} {n : Nat}
    (hresult : result = .error (.transactionAborted key n)) (queue : List Command) :
    (∀ round ∈ rounds, round.Refused) ∨
      ∃ x ∈ rounds.flatMap (Round.exchanges c.key queue), x.error? = some (.transactionAborted key n) := by
  obtain ⟨others, round, rfl⟩ := (List.eq_nil_or_concat rounds).resolve_left h.filled
  by_cases hrefused : round.Refused
  · refine .inl fun x hx => ?_
    rw [List.concat_eq_append, List.mem_append, List.mem_singleton] at hx
    rcases hx with hx | rfl
    · exact h.again x (by simpa using hx)
    · exact hrefused
  · have hlast : round.added c = .error (.transactionAborted key n) := by
      rw [h.decided round (by simp) hrefused, hresult]
      rfl
    obtain ⟨x, hx, herror⟩ := Round.exists_of_added_aborted queue hlast
    exact .inr ⟨x, List.mem_flatMap.mpr ⟨round, by simp, hx⟩, herror⟩

/-- One attempt, and what stands behind it if it was refused. -/
theorem attempt_runs {behind : Program τ (Except Error Int64)} {xs : List (Exchange τ)}
    (h : Runs ((ExceptT.run (c.addRound delta)).bind (andThen fun
      | some previous => .done (.ok previous)
      | none => behind)) xs result) :
    ∃ (round : Round τ) (rest : List (Exchange τ)),
      xs = round.exchanges c.key [.increment c.key delta] ++ rest ∧ (round.Proper c fun _ => True) ∧
        ((¬ round.Refused ∧ rest = [] ∧ round.added c = result.map some) ∨
          (round.Refused ∧ Runs behind rest result)) := by
  obtain ⟨first, rest, answer, rfl, hround, hrest⟩ := runs_bind.mp h
  obtain ⟨round, rfl, hproper, rfl⟩ := addRound_runs hround
  refine ⟨round, rest, rfl, hproper, ?_⟩
  have hnone := Round.added_eq_none_iff hproper
  rcases hadded : round.added c with e | _ | previous
  · rw [hadded] at hrest hnone
    obtain ⟨rfl, rfl⟩ := runs_done.mp hrest
    exact .inl ⟨by simpa using hnone, rfl, rfl⟩
  · rw [hadded] at hrest
    exact .inr ⟨hnone.mp hadded, hrest⟩
  · rw [hadded] at hrest hnone
    obtain ⟨rfl, rfl⟩ := runs_done.mp hrest
    exact .inl ⟨by simpa using hnone, rfl, rfl⟩

/-- **The rounds of an addition**, by induction on the attempts that are left: what a round comes to decides
whether there is another one, and the backoff behind it whether there may be. -/
theorem addRounds_runs {b : Backoff} {xs : List (Exchange τ)}
    (h : Runs (ExceptT.run (c.addRounds (τ := τ) delta b)) xs result) :
    ∃ rounds : List (Round τ), xs = rounds.flatMap (Round.exchanges c.key [.increment c.key delta]) ∧
      Attempts c b.attempts (max 1 b.left) rounds result := by
  induction b using addRounds.induct c generalizing xs with
  | _ b ih =>
    rw [addRounds_calls] at h
    obtain ⟨round, rest, rfl, hproper, ⟨hnot, rfl, hresult⟩ | ⟨hrefused, hrest⟩⟩ := attempt_runs h
    · have hbudget : max 1 b.left = (b.left - 1) + 1 := by omega
      rw [hbudget]
      exact ⟨[round], by simp, .single hproper hnot hresult⟩
    · split at hrest
      · rename_i delay counted hnext
        obtain ⟨hleft, hpos⟩ := Backoff.left_of_next hnext
        have hbudget : max 1 b.left = max 1 counted.left + 1 := by omega
        obtain ⟨rounds, rfl, hrounds⟩ := ih delay counted hnext (runs_pause.mp (runs_report.mp hrest))
        obtain ⟨rfl, -⟩ := Backoff.next_some hnext
        rw [hbudget]
        exact ⟨round :: rounds, by simp, .cons hproper hrefused hrounds⟩
      · rename_i counted hnext
        obtain ⟨rfl, hspent⟩ := Backoff.next_none hnext
        have hbudget : max 1 b.left = 1 := by
          unfold Backoff.left
          omega
        obtain ⟨rfl, rfl⟩ := runs_done.mp (runs_report.mp hrest)
        rw [hbudget]
        exact ⟨[round], by simp, .last hproper hrefused⟩

end Attempts

/-- **A counter's rounds keep within their budget**, on every store, whatever it answers. An addition makes
at least one round and at most as many as its policy allows, the first one counted, each behind a commit that
was refused; it answers that it was aborted if all of them were, and otherwise only if the store itself has
answered a call so. A swap makes one round, which commits only if what was read is what was expected.
Neither asks for anything outside of a transaction. -/
theorem rounds_within_budget (b : Backend σ τ) (s : σ) (c : Counter) :
    (∀ delta : Int64,
      let add : Program τ (Except Error Int64) := ExceptT.run (c.getAndAdd delta)
      let calls := add.exchanges b s
      let result := (add.run b s).1
      ∃ rounds : List (Round τ),
        calls = rounds.flatMap (Round.exchanges c.key [.increment c.key delta]) ∧
        Attempts c 0 (max 1 c.retry.maxAttempts) rounds result ∧
        (∀ key n, result = .error (.transactionAborted key n) →
          (∀ round ∈ rounds, round.Refused) ∨ ∃ x ∈ calls, x.error? = some (.transactionAborted key n)) ∧
        ∀ x ∈ calls, ∀ r, x.call ≠ .request r) ∧
    ∀ expect update : Int64,
      let swap : Program τ (Except Error Bool) := ExceptT.run (c.compareAndSet expect update)
      let calls := swap.exchanges b s
      ∃ round : Round τ,
        calls = round.exchanges c.key [.set c.key (encode update) none] ∧
        (round.Proper c fun n => n = expect) ∧ (swap.run b s).1 = round.swapped c ∧
        ∀ x ∈ calls, ∀ r, x.call ≠ .request r := by
  constructor
  · intro delta add calls result
    obtain ⟨rounds, hcalls, h⟩ := addRounds_runs (runs_exchanges b add s)
    refine ⟨rounds, hcalls, h, ?_, ?_⟩
    · intro key n hresult
      rw [show calls = _ from hcalls]
      exact h.aborted hresult _
    · intro x hx
      rw [show calls = _ from hcalls] at hx
      obtain ⟨round, -, hround⟩ := List.mem_flatMap.mp hx
      exact Round.call_ne_request hround
  · intro expect update swap calls
    obtain ⟨round, hcalls, hproper, hresult⟩ := compareAndSet_runs (runs_exchanges b swap s)
    refine ⟨round, hcalls, hproper, hresult, ?_⟩
    intro x hx
    rw [show calls = _ from hcalls] at hx
    exact Round.call_ne_request hx

end Counter

end WatchedStore
