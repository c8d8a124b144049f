import WatchedStore.Proofs.Clients.Reliance
import WatchedStore.Remote.Wire

/-!
# Batches that are carried out piece by piece

What is sent for a batch is its commands one after the other, with nothing around them that would hold them
together (`wire_batch`). So a store that answers one command at a time may answer those of other clients in
between. A program whose batches fare like that is a program that makes a call for each command
(`Program.piecemeal`), and goes on with all their replies.

**The laws**: what clients rely on may be checked command by command (`relies_each`), and a client that has
ended a batch without an error has had its commands carried out in their order (`course_each`).
-/

namespace WatchedStore

/-- **A queue is sent as its commands**, one by one. -/
theorem Remote.wire_batch (commands : List Command) :
    Remote.wire (.batch commands) = commands.flatMap fun c => Remote.wire (.batch [c]) := by
  simp [Remote.wire, Remote.Helpers.wire, List.map_eq_flatMap]

namespace Program

/-- A call for each command, up to the first one without an answer; then it goes on with all replies. -/
def each (next : Except Error (List Reply) → Program τ α) : List Command → List Reply → Program τ α
  | [], replies => next (.ok replies)
  | c :: rest, replies => .call (.request (.batch [c])) fun (answer : Except Error (List Reply)) =>
    match answer with
    | .ok reply => each next rest (replies ++ reply)
    | .error e => next (.error e)

/-- **A program whose batches are carried out piece by piece.** -/
def piecemeal : Program τ α → Program τ α
  | .done r => .done r
  | .call (.request (.batch commands)) next => each (fun a => (next a).piecemeal) commands []
  | .call c next => .call c fun a => (next a).piecemeal
  | .report e next => .report e next.piecemeal
  | .pause d next => .pause d next.piecemeal

end Program

namespace Memory

/-- The commands of a batch. -/
def Visit.commands (v : Visit) : List Command :=
  match v.call with
  | .request (.batch commands) => commands
  | _ => []

/-- The commands of batches in the order in which they were carried out, each with its client. -/
def commandsOf {ι : Type} (log : List (ι × Visit)) : List (ι × Command) :=
  log.flatMap fun entry => entry.2.commands.map (entry.1, ·)

/-- **All commands of clients' batches during a schedule.** -/
def System.commands {ι α : Type} [DecidableEq ι] (sys : System ι α) (schedule : List (Instant × Turn ι)) :
    List (ι × Command) :=
  commandsOf (sys.log schedule)

/-- The commands of one client. -/
def commandsBy {ι : Type} [DecidableEq ι] (i : ι) (all : List (ι × Command)) : List Command :=
  all.filterMap fun entry => if entry.1 = i then some entry.2 else none

variable {ι α : Type} {P : Call Transaction → Prop}
  {Q : (c : Call Transaction) → Except Error c.Answer → Prop}
  {next : Except Error (List Reply) → Program Transaction α} {commands : List Command}
  {replies : List Reply}

theorem commandsOf_snoc (log : List (ι × Visit)) (i : ι) (v : Visit) :
    commandsOf (log ++ [(i, v)]) = commandsOf log ++ v.commands.map (i, ·) := by
  simp [commandsOf]

section

variable [DecidableEq ι] (i : ι)

theorem commandsBy_append (before after : List (ι × Command)) :
    commandsBy i (before ++ after) = commandsBy i before ++ commandsBy i after :=
  List.filterMap_append

theorem commandsBy_cons_self (c : Command) (after : List (ι × Command)) :
    commandsBy i ((i, c) :: after) = c :: commandsBy i after := by
  simp [commandsBy]

theorem mem_commandsBy {all : List (ι × Command)} {c : Command} : c ∈ commandsBy i all ↔ (i, c) ∈ all := by
  simp only [commandsBy, List.mem_filterMap, Option.ite_none_right_eq_some, Option.some.injEq]
  exact ⟨fun ⟨_, hmem, hi, hc⟩ => hi ▸ hc ▸ hmem, fun hmem => ⟨_, hmem, rfl, rfl⟩⟩

/-- The commands of one client are those of its own calls. -/
theorem commandsBy_commandsOf (log : List (ι × Visit)) :
    commandsBy i (commandsOf log) = (System.ofClient i log).flatMap Visit.commands := by
  induction log with
  | nil => rfl
  | cons entry rest ih =>
    obtain ⟨j, v⟩ := entry
    simp only [commandsBy, commandsOf, System.ofClient, List.flatMap_cons, List.filterMap_append,
      List.filterMap_map] at ih ⊢
    rw [ih]
    by_cases hj : j = i <;> simp [hj]

end

/-- Clients may be relied on command by command. -/
theorem relies_each (hcommands : ∀ c ∈ commands, P (.request (.batch [c])))
    (hnext : ∀ a, Relies P Q (next a)) : Relies P Q (Program.each next commands replies) := by
  induction commands generalizing replies with
  | nil => exact hnext _
  | cons c rest ih =>
    obtain ⟨hc, hrest⟩ := List.forall_mem_cons.mp hcommands
    refine .call hc fun a _ => ?_
    cases a with
    | error e => exact hnext _
    | ok reply => exact ih hrest

/-- **A batch that has ended without an error has been carried out**, one command after the other, before
the client goes on. -/
theorem course_each {t t' : Instant} {s s' : Store} {r : α} {visits : List Visit}
    (h : Course t' s' (.done r) t s (Program.each next commands replies) visits)
    (hgood : ∀ v ∈ visits, v.succeeds = true) :
    ∃ t₁ s₁ all own rest, visits = own ++ rest ∧ own.flatMap Visit.commands = commands ∧
      Course t' s' (.done r) t₁ s₁ (next (.ok all)) rest := by
  induction commands generalizing t s replies visits with
  | nil => exact ⟨t, s, replies, [], visits, rfl, rfl, h⟩
  | cons c rest ih =>
    rcases h.call_inv with ⟨-, hp⟩ | ⟨t₁, s₁, later, -, rfl, hlater⟩
    · cases hp
    obtain ⟨hfirst, hlaterGood⟩ := List.forall_mem_cons.mp hgood
    have hanswer : Memory.succeeds (s₁.call t₁ (.request (.batch [c]))).1 = true := hfirst
    generalize s₁.call t₁ (.request (.batch [c])) = result at hlater hanswer
    obtain ⟨answer, after⟩ := result
    cases answer with
    | error e => cases hanswer
    | ok reply =>
      obtain ⟨t₂, s₂, all, own, tail, rfl, hown, htail⟩ := ih hlater hlaterGood
      exact ⟨t₂, s₂, all, ⟨t₁, s₁, .request (.batch [c])⟩ :: own, tail, rfl, congrArg (c :: ·) hown, htail⟩

end Memory

end WatchedStore
