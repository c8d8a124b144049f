import WatchedStore.Proofs.Clients.System

/-!
# Transactions are serial at their commit

A transaction opens on some keys, reads any of them as often as it likes, and then commits a queue or
gives up; what it reads next, and what it queues, may depend on all that it has read (`Body`). A `Session`
is any number of transactions one behind the other, each chosen by how the last one ended.

**The law** (`session_serialized`): whatever other clients do in between, a transaction that was committed
could as well have taken place at once at its commit. Its reads answered what they would have answered
then, and run there by itself it gives the same replies and leaves the same store (`AtCommit`). A
transaction that was refused or given up is without effect. Nothing is said of one that failed: a commit
whose queue crashes stops half-way.
-/

namespace WatchedStore.Memory

/-- **What a transaction does once it is open**: reads of watched keys, then a queue to commit. -/
inductive Body (keys : List String) where
  | read (key : String) (watched : key ∈ keys) (next : Except Error (Option Bytes) → Body keys)
  | commit (commands : List Command)
  | giveUp

/-- How a transaction ends. -/
inductive Outcome where
  | committed (replies : List Reply)
  | refused
  | givenUp
  | failed (e : Error)

/-- How a transaction ends by the answer to its commit. -/
def Outcome.ofAnswer : Except Error (Option (List Reply)) → Outcome
  | .ok (some replies) => .committed replies
  | .ok none => .refused
  | .error e => .failed e

namespace Body

variable {keys : List String}

/-- The calls of an open transaction. -/
def program (tx : Transaction) : Body keys → Program Transaction Outcome
  | .read key _ next => .call (.txGet tx key) fun answer => (next answer).program tx
  | .commit commands => .call (.exec tx commands) fun answer => .done (.ofAnswer answer)
  | .giveUp => .call (.discard tx) fun _ => .done .givenUp

/-- The calls of a transaction. -/
def transaction (body : Body keys) : Program Transaction Outcome :=
  .call (.watch keys) fun
    | .ok tx => body.program tx
    | .error e => .done (.failed e)

end Body

/-- A store with nobody else around, at a reading of the clock. -/
def Store.backend (now : Instant) : Backend Store Transaction where
  answer := fun c s => s.call now c
  wait := fun _ s => s
  note := fun _ s => s

/-- **A program that could as well have taken place at its last call**: the calls before are without
effect, their reads answer what the keys hold at the last call, and the whole program, run by itself on
the store that the last call met, gives the same replies and leaves the same store. -/
structure AtCommit (p : Program Transaction Outcome) (replies : List Reply) (first : List Visit)
    (last : Visit) : Prop where
  commit : last.replies? = some replies
  quiet : ∀ v ∈ first, v.Quiet ∧ v.replies? = none
  reads : ∀ now s tx key, ⟨now, s, .txGet tx key⟩ ∈ first →
    (s.call now (.txGet tx key)).1 = (last.store.state.read key last.now).1
  alone : p.run (Store.backend last.now) last.store = (.committed replies, last.left)

/-- What the calls of a transaction amount to, by how it ended. -/
def Body.Serialized {keys : List String} (body : Body keys) (visits : List Visit) : Outcome → Prop
  | .committed replies => ∃ first last, visits = first ++ [last] ∧
    AtCommit body.transaction replies first last
  | .refused | .givenUp => ∀ v ∈ visits, v.Quiet ∧ v.replies? = none
  | .failed _ => ∀ v ∈ visits, v.replies? = none

/-- **Any number of transactions**, one behind the other. -/
inductive Session (α : Type) where
  | done (result : α)
  | transaction (keys : List String) (body : Body keys) (next : Outcome → Session α)

namespace Session

/-- The calls of a session. -/
def program : Session α → Program Transaction α
  | .done result => .done result
  | .transaction _ body next => body.transaction.bind fun outcome => (next outcome).program

/-- **What the calls of a session amount to**: those of a first transaction that is not over yet, or of one
that is, and behind them those of the others. -/
def Serialized : Session α → List Visit → Prop
  | .done _, visits => visits = []
  | .transaction _ body next, visits =>
    (∃ left, Follows body.transaction visits left ∧ (∀ outcome, left ≠ .done outcome) ∧
        ∀ v ∈ visits, v.Quiet ∧ v.replies? = none) ∨
      ∃ outcome first rest, visits = first ++ rest ∧ Follows body.transaction first (.done outcome) ∧
        body.Serialized first outcome ∧ (next outcome).Serialized rest

end Session

variable {keys : List String} {tx : Transaction} {t t' t₀ : Instant} {s s' opened : Store}
  {visits : List Visit}

/-- A read in front of what could as well have taken place at a commit. -/
theorem AtCommit.read {key : String} {replies : List Reply} {first : List Visit} {last : Visit}
    {commands : List Command} {next : Except Error (Option Bytes) → Program Transaction Outcome}
    (hw : Watches tx keys t₀ opened) (hr : Reaches t₀ opened t s)
    (hr' : Reaches t (s.call t (.txGet tx key)).2 last.now last.store) (hkey : key ∈ keys)
    (hcall : last.call = .exec tx commands)
    (h : AtCommit (next (s.call t (.txGet tx key)).1) replies first last) :
    AtCommit (.call (.txGet tx key) next) replies (⟨t, s, .txGet tx key⟩ :: first) last := by
  obtain ⟨hsound, hpass⟩ := Visit.passes_of_replies hcall h.commit
  have hread : Reaches t s last.now last.store := (Reaches.refl.deed (.call (.txGet tx key))).trans hr'
  have hagain := hw.call_txGet_of_passes hr hread hsound hpass hkey
  refine ⟨h.commit, List.forall_mem_cons.mpr ⟨⟨Visit.quiet_txGet .., rfl⟩, h.quiet⟩,
    fun now s₁ tx₁ key₁ hmem => ?_, ?_⟩
  · rcases List.mem_cons.mp hmem with heq | hmem
    · cases heq
      have hnow := congrArg Prod.fst hagain
      rw [call_txGet_of_sound hsound] at hnow
      rw [State.read_eq]
      exact hnow.symm
    · exact h.reads now s₁ tx₁ key₁ hmem
  · have hstep := congrArg (fun r => (next r.1).run (Store.backend last.now) r.2) hagain
    exact hstep.trans h.alone

/-- **What the calls of an open transaction amount to**: they are quiet so far, or it has failed, or it
could as well have taken place at its last call. -/
inductive Amounts (tx : Transaction) (p p' : Program Transaction Outcome) (t : Instant) (s : Store) :
    List Visit → Prop
  | quiet {visits : List Visit} (hquiet : ∀ v ∈ visits, v.Quiet ∧ v.replies? = none)
    (hleft : ∀ replies, p' ≠ .done (.committed replies)) : Amounts tx p p' t s visits
  | failed {visits : List Visit} {e : Error} (hnone : ∀ v ∈ visits, v.replies? = none)
    (hleft : p' = .done (.failed e)) : Amounts tx p p' t s visits
  | committed {visits first : List Visit} {last : Visit} {replies : List Reply}
    {commands : List Command} (hvisits : visits = first ++ [last])
    (hleft : p' = .done (.committed replies)) (hreach : Reaches t s last.now last.store)
    (hcall : last.call = .exec tx commands) (hat : AtCommit p replies first last) :
    Amounts tx p p' t s visits

theorem Amounts.nil {p p' : Program Transaction Outcome} (h : ∀ r, p' ≠ .done r) :
    Amounts tx p p' t s [] :=
  .quiet (fun _ hv => absurd hv List.not_mem_nil) fun replies => h (.committed replies)

/-- What a commit amounts to, by its answer. -/
theorem exec_amounts {p' : Program Transaction Outcome} {commands : List Command}
    (h : Course t' s' p' t s
      (.call (.exec tx commands) fun answer => .done (Outcome.ofAnswer answer)) visits) :
    Amounts tx (.call (.exec tx commands) fun answer => .done (Outcome.ofAnswer answer)) p' t s
      visits := by
  rcases h.call_inv with ⟨rfl, rfl⟩ | ⟨t₁, s₁, rest, hr₁, rfl, hc⟩
  · exact .nil fun _ h => by cases h
  obtain ⟨rfl, rfl⟩ := hc.done_inv
  have hreplies : Visit.replies? ⟨t₁, s₁, .exec tx commands⟩ =
      Call.replies? (.exec tx commands) (s₁.call t₁ (.exec tx commands)).1 := rfl
  cases ha : (s₁.call t₁ (.exec tx commands)).1 with
  | error e =>
    rw [ha] at hreplies
    exact .failed (List.forall_mem_singleton.mpr hreplies) rfl
  | ok answer =>
    rw [ha] at hreplies
    cases answer with
    | none =>
      -- refused: the check has done no more than purge
      have hnot := ((call_exec_eq_none_iff s₁ tx commands t₁).mp ha).2
      have hquiet := Visit.quiet_exec t₁ s₁ tx commands (.inr hnot)
      exact .quiet (List.forall_mem_singleton.mpr ⟨hquiet, hreplies⟩) fun _ h => by cases h
    | some replies =>
      have halone := congrArg
        (fun answer => (Outcome.ofAnswer answer, (s₁.call t₁ (.exec tx commands)).2)) ha
      have hat : AtCommit (.call (.exec tx commands) fun answer => .done (Outcome.ofAnswer answer))
          replies [] ⟨t₁, s₁, .exec tx commands⟩ :=
        ⟨hreplies, fun _ hv => absurd hv List.not_mem_nil,
          fun _ _ _ _ hv => absurd hv List.not_mem_nil, halone⟩
      exact .committed (List.nil_append _).symm rfl hr₁ rfl hat

/-- The part of the law that is about an open transaction, by recursion on what it does. -/
theorem body_course {body : Body keys} {p' : Program Transaction Outcome}
    (hw : Watches tx keys t₀ opened) (hr : Reaches t₀ opened t s)
    (h : Course t' s' p' t s (body.program tx) visits) :
    Amounts tx (body.program tx) p' t s visits := by
  induction body generalizing t s visits with
  | read key watched next ih =>
    rcases h.call_inv with ⟨rfl, rfl⟩ | ⟨t₁, s₁, rest, hr₁, rfl, hc⟩
    · exact .nil fun _ h => by cases h
    have hread : Reaches t₁ s₁ t₁ (s₁.call t₁ (.txGet tx key)).2 :=
      Reaches.refl.deed (.call (.txGet tx key))
    have hquiet : Visit.Quiet ⟨t₁, s₁, .txGet tx key⟩ := Visit.quiet_txGet ..
    -- what comes behind the read is a body by itself, for whatever the read has answered
    cases ih _ ((hr.trans hr₁).trans hread) hc with
    | quiet hrest hleft => exact .quiet (List.forall_mem_cons.mpr ⟨⟨hquiet, rfl⟩, hrest⟩) hleft
    | failed hrest hleft => exact .failed (List.forall_mem_cons.mpr ⟨rfl, hrest⟩) hleft
    | committed hvisits hleft hr₂ hcall hat =>
      subst hvisits
      exact .committed (List.cons_append ..).symm hleft ((hr₁.trans hread).trans hr₂) hcall
        (.read hw (hr.trans hr₁) hr₂ watched hcall hat)
  | commit commands => exact exec_amounts h
  | giveUp =>
    rcases h.call_inv with ⟨rfl, rfl⟩ | ⟨t₁, s₁, rest, hr₁, rfl, hc⟩
    · exact .nil fun _ h => by cases h
    obtain ⟨rfl, rfl⟩ := hc.done_inv
    exact .quiet (List.forall_mem_singleton.mpr ⟨Visit.quiet_discard .., rfl⟩) fun _ h => by cases h

/-- An opening in front of what could as well have taken place at a commit. -/
theorem AtCommit.open {replies : List Reply} {first : List Visit} {last : Visit}
    {commands : List Command} {body : Body keys} (hs : s.WellFormed)
    (hopen : (s.call t (.watch keys)).1 = .ok tx)
    (hr : Reaches t (s.call t (.watch keys)).2 last.now last.store)
    (hcall : last.call = .exec tx commands) (h : AtCommit (body.program tx) replies first last) :
    AtCommit body.transaction replies (⟨t, s, .watch keys⟩ :: first) last := by
  have hw := watches_of_call hs hopen
  obtain ⟨hsound, hpass⟩ := Visit.passes_of_replies hcall h.commit
  refine ⟨h.commit, List.forall_mem_cons.mpr ⟨⟨Visit.quiet_watch .., rfl⟩, h.quiet⟩,
    fun now s₁ tx₁ key₁ hmem => ?_, ?_⟩
  · rcases List.mem_cons.mp hmem with heq | hmem
    · cases heq
    · exact h.reads now s₁ tx₁ key₁ hmem
  · have hagain := hw.call_watch_of_passes hr hsound hpass
    have hstep := congrArg (fun r => (match r.1 with
      | .ok tx => body.program tx
      | .error e => .done (.failed e)).run (Store.backend last.now) r.2) hagain
    exact hstep.trans h.alone

/-- A transaction that is over, not committed and without effect, is serialized. -/
theorem Body.serialized_of_quiet {body : Body keys} {p' : Program Transaction Outcome}
    (hquiet : ∀ v ∈ visits, v.Quiet ∧ v.replies? = none)
    (hleft : ∀ replies, p' ≠ .done (.committed replies)) (outcome : Outcome)
    (hdone : p' = .done outcome) : body.Serialized visits outcome := by
  cases outcome with
  | committed replies => exact absurd hdone (hleft replies)
  | refused => exact hquiet
  | givenUp => exact hquiet
  | failed e => exact fun v hv => (hquiet v hv).2

/-- **A transaction that is over amounts to what its outcome says; until then it is without effect.** -/
theorem transaction_course {body : Body keys} {p' : Program Transaction Outcome}
    (hs : s.WellFormed) (h : Course t' s' p' t s body.transaction visits) :
    (∀ outcome, p' = .done outcome → body.Serialized visits outcome) ∧
      ((∀ outcome, p' ≠ .done outcome) → ∀ v ∈ visits, v.Quiet ∧ v.replies? = none) := by
  rcases h.call_inv with ⟨rfl, rfl⟩ | ⟨t₁, s₁, rest, hr₁, rfl, hc⟩
  · have hnone : ∀ v ∈ ([] : List Visit), v.Quiet ∧ v.replies? = none :=
      fun v hv => absurd hv List.not_mem_nil
    exact ⟨Body.serialized_of_quiet hnone (fun _ h => by cases h), fun _ => hnone⟩
  have hwatch : (⟨t₁, s₁, .watch keys⟩ : Visit).Quiet ∧
      (⟨t₁, s₁, .watch keys⟩ : Visit).replies? = none := ⟨Visit.quiet_watch .., rfl⟩
  have hwellFormed : s₁.WellFormed := hr₁.wellFormed hs
  cases ha : (s₁.call t₁ (.watch keys)).1 with
  | error e =>
    rw [ha] at hc
    obtain ⟨rfl, rfl⟩ := hc.done_inv
    have hone : ∀ v ∈ [(⟨t₁, s₁, .watch keys⟩ : Visit)], v.Quiet ∧ v.replies? = none :=
      List.forall_mem_singleton.mpr hwatch
    exact ⟨Body.serialized_of_quiet hone (fun _ h => by cases h), fun _ => hone⟩
  | ok tx =>
    rw [ha] at hc
    have hw := watches_of_call hwellFormed ha
    cases body_course hw .refl hc with
    | quiet hrest hleft =>
      have hall : ∀ v ∈ (⟨t₁, s₁, .watch keys⟩ : Visit) :: rest, v.Quiet ∧ v.replies? = none :=
        List.forall_mem_cons.mpr ⟨hwatch, hrest⟩
      exact ⟨Body.serialized_of_quiet hall hleft, fun _ => hall⟩
    | failed hrest hleft =>
      subst hleft
      refine ⟨fun outcome ho => ?_, fun hnot => absurd rfl (hnot _)⟩
      cases ho
      exact List.forall_mem_cons.mpr ⟨hwatch.2, hrest⟩
    | @committed first last _ _ hvisits hleft hr₂ hcall hat =>
      subst hvisits hleft
      refine ⟨fun outcome ho => ?_, fun hnot => absurd rfl (hnot _)⟩
      cases ho
      exact ⟨_ :: first, last, rfl, .open hwellFormed ha hr₂ hcall hat⟩

/-- The law for one session among any deeds. -/
theorem session_course {session : Session α} {p' : Program Transaction α} (hs : s.WellFormed)
    (h : Course t' s' p' t s session.program visits) : session.Serialized visits := by
  induction session generalizing t s visits with
  | done result => exact h.done_inv.1
  | transaction keys body next ih =>
    rcases h.bind_inv with ⟨q', hnot, -, hc⟩ | ⟨outcome, t₁, s₁, first, rest, rfl, hc, hrest⟩
    · exact .inl ⟨q', hc.follows, hnot, (transaction_course hs hc).2 hnot⟩
    · exact .inr ⟨outcome, first, rest, rfl, hc.follows, (transaction_course hs hc).1 outcome rfl,
        ih outcome (hc.reaches.wellFormed hs) hrest⟩

/-- **Transactions are serial at their commit.** Any number of clients share a store, and act in any order
at readings of the clock that do not decrease, with deeds of others in between. Of each client that makes
transactions, each transaction that was committed could as well have taken place at once at its commit,
and each one that was refused or given up is without effect. -/
theorem session_serialized {ι : Type} [DecidableEq ι] {sys : System ι α} {i : ι}
    {session : Session α} {schedule : List (Instant × Turn ι)} (hs : Reachable t sys.store)
    (hrun : Ordered t schedule t') (hi : sys.program i = session.program) :
    session.Serialized (sys.visits i schedule) := by
  have hcourse := sys.course i hrun
  rw [hi] at hcourse
  exact session_course hs.wellFormed hcourse

/-- A client copies one key to another, while a second client writes elsewhere and time passes. -/
theorem session_serialized_copy :
    let copy : Session Unit := .transaction ["a"]
      (.read "a" (by decide) fun
        | .ok (some b) => .commit [.set "b" b none]
        | _ => .giveUp) fun _ => .done ()
    let sys : System Bool Unit :=
      { store := { maxEntries := 3 }
        program := fun
          | false => copy.program
          | true => .call (.request (.set "c" [] none)) fun _ => .done () }
    let schedule : List (Instant × Turn Bool) :=
      [(1, .other (.call (.request (.set "a" [0x37] none)))), (2, .client false), (3, .client true),
        (5, .client false), (8, .client false)]
    copy.Serialized (sys.visits false schedule) := by
  intro copy sys schedule
  have hs : Reachable 0 sys.store := ⟨3, .refl⟩
  have hrun : Ordered 0 schedule 8 := by simp [schedule, Ordered]
  exact session_serialized hs hrun rfl

end WatchedStore.Memory
