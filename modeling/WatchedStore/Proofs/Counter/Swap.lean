import WatchedStore.Proofs.Clients.System
import WatchedStore.Proofs.Counter.Round

/-!
# Swapping on condition

`compareAndSet` reads a value in one call and replaces it in another, and others act in between. If it
answers yes, the commit replaced the expected value in a single step, and the key has no deadline any
more. If it answers no, for whichever reason, or fails, it has had no effect.

**The law** (`swapped_of_done`) holds among any deeds of others. What follows for a key that only swaps
modify is proved in the next module.
-/

namespace WatchedStore.Memory

open WatchedStore.Action WatchedStore.Counter

/-- **A commit that swapped an integer**: the key held `expect`, holds `update` for good afterwards, and no
other key has changed. -/
def Visit.Swaps (key : String) (expect update : Int64) (v : Visit) : Prop :=
  ∃ b until_, v.before key = some ⟨.bytes b, until_⟩ ∧ decode key b = .ok expect ∧
    v.Writes key ⟨.bytes (Numeral.encode update.toInt), none⟩

variable {c : Counter} {expect update : Int64} {t t' : Instant} {s s' : Store} {tx : Transaction}
  {key : String} {visits : List Visit}

/-- **Under a transaction that vouches for an integer, a commit that sets is idle or swaps it.** -/
theorem Vouches.set (h : Vouches tx key expect t s) (update : Int64) :
    Visit.Idle ⟨t, s, .exec tx [.set key (encode update) none]⟩ ∨
      (Visit.commits ⟨t, s, .exec tx [.set key (encode update) none]⟩ = true ∧
        Visit.Swaps key expect update ⟨t, s, .exec tx [.set key (encode update) none]⟩) := by
  rcases h.idle_or_held [.set key (encode update) none] with
    hidle | ⟨hsound, hpass, hsame, b, until_, hlive, hb⟩
  · exact .inl hidle
  have hrule : Rule.ofCommand t (.set key (encode update) none) (some ⟨.bytes b, until_⟩) false =
      (.ok (.status "OK"), .put ⟨.bytes (encode update), none⟩) := rfl
  obtain ⟨hcommits, hwrites⟩ :=
    Visit.writes_of_put (.set key (encode update) none) hsound hpass hsame hlive hrule rfl rfl
  exact .inr ⟨hcommits, b, until_, hlive, hb, hwrites⟩

/-- **What the result of a swap stands for**: a yes, for the commit that swapped. -/
def swapEffect (key : String) (expect update : Int64) : Except Error Bool → Option (Visit → Prop)
  | .ok true => some (Visit.Swaps key expect update)
  | _ => none

/-- A swap, up to any moment. -/
theorem compareAndSet_lands {p' : Program Transaction (Except Error Bool)} (hs : s.WellFormed)
    (h : Course t' s' p' t s (ExceptT.run (c.compareAndSet expect update)) visits) :
    Lands (swapEffect c.key expect update) p' visits := by
  obtain ⟨different, refused, heq⟩ := c.compareAndSet_calls (τ := Transaction) expect update
  rw [heq] at h
  refine opened_lands hs (fun _ => rfl) (fun tx current t₁ s₁ rest hvouches hc => ?_) h
  split at hc
  · -- another value: the transaction is given up
    rcases hc.call_inv with ⟨rfl, rfl⟩ | ⟨t₂, s₂, rest, -, rfl, hend⟩
    · exact .nil fun _ h => by cases h
    obtain ⟨rfl, hleft⟩ := Ends.course (r := Except.ok false) (.report .done) hend
    refine .idle (List.forall_mem_singleton.mpr (Visit.idle_discard ..)) fun r h => ?_
    rw [hleft r h]
    rfl
  · rename_i hsame
    have hcurrent : current = expect := by simpa using hsame
    subst hcurrent
    exact commit_lands (fun _ => rfl) (fun t₂ s₂ hr => (hvouches.later hr).set update)
      (.report .done) rfl (.report .done) rfl hc

/-- **What the calls of a finished swap amount to**: at a yes, the last one is a commit that swapped, and
those before are without effect; at a no or a failure, all are. -/
def Swapped (key : String) (expect update : Int64) (visits : List Visit) : Except Error Bool → Prop
  | .ok true => ∃ first last, visits = first ++ [last] ∧ (∀ v ∈ first, v.Quiet) ∧
      last.Swaps key expect update
  | .ok false | .error _ => ∀ v ∈ visits, v.Quiet

/-- **Swapping is atomic**, whatever others do in between. -/
theorem swapped_of_done {ι : Type} [DecidableEq ι] {sys : System ι (Except Error Bool)} {i : ι}
    {schedule : List (Instant × Turn ι)} {result : Except Error Bool} (hs : Reachable t sys.store)
    (hrun : Ordered t schedule t') (hi : sys.program i = ExceptT.run (c.compareAndSet expect update))
    (hdone : (sys.after schedule).program i = .done result) :
    Swapped c.key expect update (sys.visits i schedule) result := by
  have hcourse := sys.course i hrun
  rw [hi, hdone] at hcourse
  have hlands := compareAndSet_lands hs.wellFormed hcourse
  match result, hlands with
  | .ok true, hlands => exact hlands.of_effect rfl
  | .ok false, hlands => exact hlands.of_none rfl
  | .error e, hlands => exact hlands.of_none rfl

end WatchedStore.Memory
