import WatchedStore.Proofs.Clients.System
import WatchedStore.Proofs.Counter.Round

/-!
# Adding and answering the value before

`getAndAdd` reads a value in one call and adds in another, and others act in between. The value that it
answers is nevertheless the one that it added to, in a single step: its last commit. A round that was
refused, or whose sum does not fit, has no effect, and neither has an operation that fails.

**The law** (`getAndAdd_atomic`) holds for any number of rounds, among any deeds of others.
-/

namespace WatchedStore.Memory

open WatchedStore.Action WatchedStore.Counter

/-- **A commit that added to an integer**: the key held `previous`, holds the sum afterwards with the same
deadline, and no other key has changed. -/
def Visit.Adds (key : String) (previous delta : Int64) (v : Visit) : Prop :=
  ∃ b until_, v.before key = some ⟨.bytes b, until_⟩ ∧ decode key b = .ok previous ∧
    v.Writes key ⟨.bytes (Numeral.encode (previous.toInt + delta.toInt)), until_⟩

/-- The operations that answer the value before, and what they add. -/
inductive Fetches (c : Counter) : Int64 → Action Transaction Int64 → Prop
  | add (delta : Int64) : Fetches c delta (c.getAndAdd delta)
  | increment : Fetches c 1 c.getAndIncrement
  | decrement : Fetches c (-1) c.getAndDecrement

variable {c : Counter} {delta : Int64} {t t' : Instant} {s s' : Store} {tx : Transaction}
  {key : String} {n : Int64} {visits : List Visit}

/-- A sum that fits is the sum. -/
theorem toInt_of_sum? {a b sum : Int64} (h : Numeral.sum? a b = some sum) :
    sum.toInt = a.toInt + b.toInt := by
  unfold Numeral.sum? at h
  dsimp only at h
  split at h
  · rename_i hfits
    cases h
    exact Int64.toInt_ofInt_of_le hfits.1 hfits.2
  · cases h

/-- **Under a transaction that vouches for an integer, a commit that adds is idle or adds to it.** -/
theorem Vouches.increment (h : Vouches tx key n t s) (delta : Int64) :
    Visit.Idle ⟨t, s, .exec tx [.increment key delta]⟩ ∨
      (Visit.commits ⟨t, s, .exec tx [.increment key delta]⟩ = true ∧
        Visit.Adds key n delta ⟨t, s, .exec tx [.increment key delta]⟩) := by
  rcases h.idle_or_held [.increment key delta] with
    hidle | ⟨hsound, hpass, hsame, b, until_, hlive, hb⟩
  · exact .inl hidle
  have hrule : Rule.ofCommand t (.increment key delta) (some ⟨.bytes b, until_⟩) false =
      ((Rule.store (Numeral.sum? n delta) until_).1.map .integer,
        (Rule.store (Numeral.sum? n delta) until_).2) := by
    simp only [Rule.ofCommand, Rule.map, Rule.increment, hb]
  cases hsum : Numeral.sum? n delta with
  | none =>
    -- the sum does not fit: the command fails inside a commit that passes
    rw [hsum] at hrule
    exact .inl (Visit.idle_of_keep (.increment key delta) hsound hpass hsame hlive hrule
      fun _ h => by cases h)
  | some sum =>
    rw [hsum] at hrule
    have hheld := State.not_expired_of_live hlive
    have hnot : Entry.isExpired ⟨.bytes (encode sum), until_⟩ t = false := hheld
    obtain ⟨hcommits, hwrites⟩ :=
      Visit.writes_of_put (.increment key delta) hsound hpass hsame hlive hrule rfl hnot
    refine .inr ⟨hcommits, b, until_, hlive, hb, ?_⟩
    rw [← toInt_of_sum? hsum]
    exact hwrites

/-- What the result of one attempt stands for. -/
def attemptEffect (key : String) (delta : Int64) :
    Except Error (Option Int64) → Option (Visit → Prop)
  | .ok (some previous) => some (Visit.Adds key previous delta)
  | _ => none

/-- **What the result of an addition stands for**: the commit that added to the value answered. -/
def addEffect (key : String) (delta : Int64) : Except Error Int64 → Option (Visit → Prop)
  | .ok previous => some (Visit.Adds key previous delta)
  | .error _ => none

/-- One attempt, up to any moment. -/
theorem addRound_lands {p' : Program Transaction (Except Error (Option Int64))} (hs : s.WellFormed)
    (h : Course t' s' p' t s (ExceptT.run (c.addRound delta)) visits) :
    Lands (attemptEffect c.key delta) p' visits := by
  rw [addRound_calls] at h
  refine opened_lands hs (fun _ => rfl) (fun tx n t₁ s₁ rest hvouches hc => ?_) h
  exact commit_lands (fun _ => rfl) (fun t₂ s₂ hr => (hvouches.later hr).increment delta)
    (.report .done) rfl .done rfl hc

/-- An attempt, and behind a refused one any program that lands. -/
theorem attempt_lands {next p' : Program Transaction (Except Error Int64)} (hs : s.WellFormed)
    (hnext : ∀ t₁ s₁ rest, s₁.WellFormed → Course t' s' p' t₁ s₁ next rest →
      Lands (addEffect c.key delta) p' rest)
    (h : Course t' s' p' t s ((ExceptT.run (c.addRound delta)).bind (andThen fun
      | some previous => .done (.ok previous)
      | none => next)) visits) : Lands (addEffect c.key delta) p' visits := by
  refine Lands.bind (attemptEffect c.key delta) (fun _ _ _ _ hc => addRound_lands hs hc) ?_ ?_ h
  · intro r did hr
    match r, hr with
    | .ok (some previous), hr => exact ⟨.ok previous, .done, hr⟩
  · intro r t₁ s₁ rest hr hreach hc
    match r, hr, hc with
    | .ok none, _, hc => exact hnext t₁ s₁ rest (hreach.wellFormed hs) hc
    | .error e, _, hc =>
      obtain ⟨rfl, rfl⟩ := hc.done_inv
      refine .nil fun r h => ?_
      cases h
      rfl

/-- All attempts, up to any moment. -/
theorem addRounds_lands {p' : Program Transaction (Except Error Int64)} {b : Backoff}
    (hs : s.WellFormed) (h : Course t' s' p' t s (ExceptT.run (c.addRounds delta b)) visits) :
    Lands (addEffect c.key delta) p' visits := by
  induction b using addRounds.induct c generalizing t s visits with
  | _ b ih =>
    rw [addRounds_calls] at h
    refine attempt_lands hs (fun t₁ s₁ rest hs₁ hc => ?_) h
    split at hc
    · rename_i delay counted hnext
      rcases hc.report_inv with ⟨rfl, rfl⟩ | hc
      · exact .nil fun _ h => by cases h
      rcases hc.pause_inv with ⟨rfl, rfl⟩ | hc
      · exact .nil fun _ h => by cases h
      exact ih delay counted hnext hs₁ hc
    · rename_i counted hnext
      have hend : Ends (α := Except Error Int64)
          (.error (.transactionAborted c.key counted.attempts)) _ := .report (e := c.gaveUp counted) .done
      obtain ⟨rfl, hleft⟩ := hend.course hc
      exact .nil fun r h => by rw [hleft r h]; rfl

/-- **An operation that answers the value before lands**: if it has an effect, that is to have added to
the value that it answers. -/
theorem Fetches.lands {operation : Action Transaction Int64}
    {p' : Program Transaction (Except Error Int64)} (h : Fetches c delta operation) (hs : s.WellFormed)
    (hc : Course t' s' p' t s (ExceptT.run operation) visits) :
    Lands (addEffect c.key delta) p' visits := by
  cases h <;> exact addRounds_lands hs hc

/-- **Adding is atomic.** A client adds to a counter and answers the value before, with any policy for
retries, among any deeds of others. If it succeeds, its last call is a commit that added to exactly the
value answered, and all its calls before are without effect; if it fails, all its calls are. -/
theorem getAndAdd_atomic {ι : Type} [DecidableEq ι] {sys : System ι (Except Error Int64)} {i : ι}
    {operation : Action Transaction Int64} {schedule : List (Instant × Turn ι)}
    {result : Except Error Int64} (hs : Reachable t sys.store) (hrun : Ordered t schedule t')
    (hoperation : Fetches c delta operation) (hi : sys.program i = ExceptT.run operation)
    (hdone : (sys.after schedule).program i = .done result) :
    match result with
    | .ok previous => ∃ first last, sys.visits i schedule = first ++ [last] ∧
        (∀ v ∈ first, v.Quiet) ∧ last.Adds c.key previous delta
    | .error _ => ∀ v ∈ sys.visits i schedule, v.Quiet := by
  have hcourse := sys.course i hrun
  rw [hi, hdone] at hcourse
  have hlands := hoperation.lands hs.wellFormed hcourse
  cases result with
  | ok previous => exact hlands.of_effect rfl
  | error e => exact hlands.of_none rfl

/-- Three are added to a key that expires later on, while somebody else writes another key. -/
theorem getAndAdd_atomic_five :
    let c : Counter := { key := "n", retry := .standard, draw := fun _ => 1.0 }
    let sys : System Unit (Except Error Int64) :=
      { store := { maxEntries := 2 }, program := fun _ => ExceptT.run (c.getAndAdd 3) }
    let schedule : List (Instant × Turn Unit) :=
      [(0, .other (.call (.request (.set "n" [0x35] (some (.ofMillis 1)))))), (1, .client ()),
        (2, .client ()), (2, .other (.call (.request (.set "m" [] none)))), (3, .client ()),
        (3, .client ())]
    ∃ first last, sys.visits () schedule = first ++ [last] ∧ (∀ v ∈ first, v.Quiet) ∧
      last.Adds "n" 5 3 := by
  intro c sys schedule
  have hdone : (sys.after schedule).program () = .done (.ok 5) := by
    have hprogram : sys.program = fun _ => _ := funext fun _ => c.addRounds_calls 3 ⟨c.retry, 0⟩
    rw [show sys = ⟨{ maxEntries := 2 }, _⟩ from congrArg (System.mk _) hprogram]
    simp only [schedule, c]
    rfl
  have hrun : Ordered 0 schedule 3 := by simp [schedule, Ordered]
  exact getAndAdd_atomic ⟨2, .refl⟩ hrun (.add 3) rfl hdone

end WatchedStore.Memory
