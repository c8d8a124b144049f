import WatchedStore.Proofs.Clients.Landing
import WatchedStore.Proofs.Counter.Calls

/-!
# One round of a counter

A round opens a transaction on its key, reads an integer, and commits one command. Up to the commit it has
no effect. What it has by then is a transaction that vouches for the integer (`Vouches`): wherever the
commit passes, the key holds this integer there, whatever the others did in the meantime.

**The laws**: a round that is over before its commit is idle (`opened_course`); the commit decides how the
round goes on (`commit_course`), and under a transaction that vouches for an integer it is idle or has the
effect of its one command on that integer (`Vouches.commit`).
-/

namespace WatchedStore.Memory

open WatchedStore.Action WatchedStore.Counter

variable {α : Type} {t t' : Instant} {s s' : Store} {p' : Program Transaction (Except Error α)}
  {tx : Transaction} {key : String} {n : Int64} {visits : List Visit}

/-- **A transaction that vouches for an integer** from some moment on: wherever its commit passes, the
contents are left as they are up to the queue, and the key holds the integer. -/
def Vouches (tx : Transaction) (key : String) (n : Int64) (t : Instant) (s : Store) : Prop :=
  ∀ t' s', Reaches t s t' s' → s'.poisoned = false → Passes tx t' s' →
    (s'.state.unchanged tx.watched t').2 = s'.state ∧
      ∃ b until_, s'.state.live t' key = some ⟨.bytes b, until_⟩ ∧ decode key b = .ok n

theorem Vouches.later (h : Vouches tx key n t s) (hr : Reaches t s t' s') : Vouches tx key n t' s' :=
  fun t₂ s₂ hr₂ => h t₂ s₂ (hr.trans hr₂)

/-- A read that found an integer under the watched key. -/
theorem bytes_of_read {c : Counter}
    (h : ((s.call t (.txGet tx c.key)).1.bind c.ofStored) = .ok n) (hsound : s.poisoned = false) :
    ∃ b until_, s.state.live t c.key = some ⟨.bytes b, until_⟩ ∧ decode c.key b = .ok n := by
  rw [call_txGet_of_sound hsound] at h
  cases hlive : s.state.live t c.key with
  | none =>
    rw [hlive] at h
    cases h
  | some e =>
    obtain ⟨value, until_⟩ := e
    rw [hlive] at h
    cases value with
    | members set => cases h
    | bytes b => exact ⟨b, until_, rfl, h⟩

/-- A transaction that has read an integer under its key vouches for it. -/
theorem Watches.vouches {c : Counter} {t₀ : Instant} {s₀ : Store} (hw : Watches tx [c.key] t₀ s₀)
    (hr : Reaches t₀ s₀ t s) (h : ((s.call t (.txGet tx c.key)).1.bind c.ofStored) = .ok n) :
    Vouches tx c.key n t s := by
  intro t₁ s₁ hr₁ hsound hpass
  refine ⟨hw.unchanged_of_passes (hr.trans hr₁) hpass, ?_⟩
  rw [← hw.live_eq_of_passes hr hr₁ hpass List.mem_cons_self]
  exact bytes_of_read h (hr₁.sound hsound)

/-- What a course with another program behind an opening or a read amounts to: it is over with an error
and idle, or goes on idly to where a transaction vouches for an integer. -/
def Prepares (key : String) (k : Transaction → Int64 → Program Transaction (Except Error α))
    (t' : Instant) (s' : Store) (p' : Program Transaction (Except Error α)) (t : Instant) (s : Store)
    (visits : List Visit) : Prop :=
  ((∀ v ∈ visits, v.Idle) ∧ ∀ r, p' = .done r → ∃ e, r = .error e) ∨
    ∃ tx n t₁ s₁ first rest, visits = first ++ rest ∧ (∀ v ∈ first, v.Idle) ∧
      Reaches t s t₁ s₁ ∧ Vouches tx key n t₁ s₁ ∧ Course t' s' p' t₁ s₁ (k tx n) rest

theorem Prepares.nil {k : Transaction → Int64 → Program Transaction (Except Error α)}
    (h : ∀ r, p' ≠ .done r) : Prepares key k t' s' p' t s [] :=
  .inl ⟨fun _ hv => absurd hv List.not_mem_nil, fun r hr => absurd hr (h r)⟩

theorem Prepares.cons {k : Transaction → Int64 → Program Transaction (Except Error α)} {v : Visit}
    {t₁ : Instant} {s₁ : Store} (hv : v.Idle) (hr : Reaches t s t₁ s₁)
    (h : Prepares key k t' s' p' t₁ s₁ visits) : Prepares key k t' s' p' t s (v :: visits) := by
  rcases h with ⟨hidle, hp⟩ | ⟨tx, n, t₂, s₂, first, rest, rfl, hidle, hr₂, hvouches, hc⟩
  · exact .inl ⟨List.forall_mem_cons.mpr ⟨hv, hidle⟩, hp⟩
  · exact .inr ⟨tx, n, t₂, s₂, v :: first, rest, rfl, List.forall_mem_cons.mpr ⟨hv, hidle⟩,
      hr.trans hr₂, hvouches, hc⟩

/-- The read of a round. -/
theorem readWatched_course {c : Counter} {t₀ : Instant} {s₀ : Store}
    {k : Transaction → Int64 → Program Transaction (Except Error α)} (hw : Watches tx [c.key] t₀ s₀)
    (hr : Reaches t₀ s₀ t s)
    (h : Course t' s' p' t s ((ExceptT.run (c.readWatched tx)).bind (andThen (k tx))) visits) :
    Prepares c.key k t' s' p' t s visits := by
  rw [readWatched_calls] at h
  rcases h.call_inv with ⟨rfl, rfl⟩ | ⟨t₁, s₁, rest, hr₁, rfl, hc⟩
  · exact .nil fun _ h => by cases h
  have hread : Reaches t s t₁ (s₁.call t₁ (.txGet tx c.key)).2 := .deed hr₁ (.call (.txGet tx c.key))
  refine .cons (Visit.idle_txGet ..) hread ?_
  -- the program goes on by the integer that was read, or by why there is none
  obtain ⟨r, hn⟩ : ∃ r, (s₁.call t₁ (.txGet tx c.key)).1.bind c.ofStored = r := ⟨_, rfl⟩
  replace hc : Course t' s' p' t₁ (s₁.call t₁ (.txGet tx c.key)).2
      ((afterRead tx r).bind (andThen (k tx))) rest := hn ▸ hc
  cases r with
  | error e =>
    rcases hc.call_inv with ⟨rfl, rfl⟩ | ⟨t₂, s₂, rest, hr₂, rfl, hend⟩
    · exact .nil fun _ h => by cases h
    · obtain ⟨rfl, rfl⟩ := hend.done_inv
      refine .inl ⟨List.forall_mem_singleton.mpr (Visit.idle_discard ..), fun r h => ?_⟩
      cases h
      exact ⟨e, rfl⟩
  | ok n =>
    have hvouches := hw.vouches (hr.trans hr₁) hn
    exact .inr ⟨tx, n, t₁, _, [], rest, rfl, fun v hv => absurd hv List.not_mem_nil, .refl,
      hvouches.later (.deed .refl (.call (.txGet tx c.key))), hc⟩

/-- **A round up to its commit.** -/
theorem opened_course {c : Counter} {k : Transaction → Int64 → Program Transaction (Except Error α)}
    (hs : s.WellFormed) (h : Course t' s' p' t s (c.opened k) visits) :
    Prepares c.key k t' s' p' t s visits := by
  rcases h.call_inv with ⟨rfl, rfl⟩ | ⟨t₁, s₁, rest, hr₁, rfl, hc⟩
  · exact .nil fun _ h => by cases h
  refine .cons (Visit.idle_watch ..) (.deed hr₁ (.call (.watch [c.key]))) ?_
  cases hopen : (s₁.call t₁ (.watch [c.key])).1 with
  | error e =>
    rw [hopen] at hc
    obtain ⟨rfl, rfl⟩ := hc.done_inv
    refine .inl ⟨fun v hv => absurd hv List.not_mem_nil, fun r h => ?_⟩
    cases h
    exact ⟨e, rfl⟩
  | ok tx =>
    rw [hopen] at hc
    exact readWatched_course (watches_of_call (hr₁.wellFormed hs) hopen) .refl hc

/-! ## The commit -/

/-- A commit of one command on a key that holds an entry, where the check passes and leaves the contents
alone: it is answered as the command is, and leaves behind what the command does. -/
theorem call_exec_one {cmd : Command} {e : Entry} {answer : Except Error Reply} {change : Update}
    (hsound : s.poisoned = false) (hpass : Passes tx t s)
    (hsame : (s.state.unchanged tx.watched t).2 = s.state) (hlive : s.state.live t cmd.key = some e)
    (hrule : Rule.ofCommand t cmd (some e) false = (answer, change))
    (hcrash : ∀ reason, answer ≠ .error (.crash reason)) :
    (s.call t (.exec tx [cmd])).1 = .ok (some [.ofAnswer answer]) ∧
      (s.call t (.exec tx [cmd])).2.state =
        (s.state.follow (Rule.ofCommand t cmd) cmd.key s.maxEntries t).2 := by
  have hfull := State.isFull_of_live s.maxEntries hlive
  have happly := s.state.apply_eq_follow cmd s.maxEntries t
  have hanswer : (s.state.apply cmd s.maxEntries t).1 = answer := by
    rw [happly, State.follow_fst, hlive, hfull, hrule]
  have hbatch := s.state.applyAll_cons s.maxEntries t cmd [] fun reason => hanswer ▸ hcrash reason
  have hexec : s.state.exec tx.watched [cmd] s.maxEntries t =
      (.ok (some [.ofAnswer answer]),
        (s.state.follow (Rule.ofCommand t cmd) cmd.key s.maxEntries t).2) := by
    rw [State.exec_eq, if_pos (show (s.state.unchanged tx.watched t).1 = true from hpass), hsame,
      hbatch, hanswer, happly]
    rfl
  rw [call_exec_of_sound hsound, hexec]
  exact ⟨rfl, rfl⟩

namespace Visit

variable (cmd : Command) {e : Entry}

theorem writes_of_put {reply : Reply} {e' : Entry} (hsound : s.poisoned = false)
    (hpass : Passes tx t s) (hsame : (s.state.unchanged tx.watched t).2 = s.state)
    (hlive : s.state.live t cmd.key = some e)
    (hrule : Rule.ofCommand t cmd (some e) false = (.ok reply, .put e'))
    (hreply : reply.asError? = none) (hnot : e'.isExpired t = false) :
    commits ⟨t, s, .exec tx [cmd]⟩ = true ∧ Writes ⟨t, s, .exec tx [cmd]⟩ cmd.key e' := by
  obtain ⟨hanswer, hleft⟩ := call_exec_one hsound hpass hsame hlive hrule fun _ h => by cases h
  have hput := State.live_follow_put (Rule.ofCommand t cmd) s.maxEntries
    (by rw [hlive, State.isFull_of_live _ hlive, hrule]) hnot
  have hafter : after ⟨t, s, .exec tx [cmd]⟩ =
      fun k => if k = cmd.key then some e' else s.state.live t k := by
    rw [after, left, hleft, hput]
  refine ⟨?_, ⟨tx, [cmd], rfl⟩, ?_, fun k hk => ?_⟩
  · simp only [commits, replies?, answer, hanswer, Call.replies?]
    simp [Reply.check, Reply.ofAnswer, hreply, Except.isOk, Except.toBool]
  · rw [hafter]
    exact if_pos rfl
  · rw [hafter]
    exact if_neg hk

theorem idle_of_keep {err : Error} (hsound : s.poisoned = false) (hpass : Passes tx t s)
    (hsame : (s.state.unchanged tx.watched t).2 = s.state) (hlive : s.state.live t cmd.key = some e)
    (hrule : Rule.ofCommand t cmd (some e) false = (.error err, .keep))
    (hcrash : ∀ reason, err ≠ .crash reason) : Idle ⟨t, s, .exec tx [cmd]⟩ := by
  obtain ⟨hanswer, hleft⟩ := call_exec_one hsound hpass hsame hlive hrule fun reason h => by
    cases h
    exact hcrash reason rfl
  refine ⟨?_, ?_⟩
  · have hkeep := State.live_follow_keep (Rule.ofCommand t cmd) s.maxEntries
      (by rw [hlive, State.isFull_of_live _ hlive, hrule])
    rw [Quiet, after, left, hleft, hkeep]
    rfl
  · simp only [commits, replies?, answer, hanswer, Call.replies?]
    cases hreply : (Reply.ofError err).asError? with
    | none => exact absurd hreply (Rule.asError?_ofError err)
    | some reason => simp [Reply.check, Reply.ofAnswer, hreply, Except.isOk, Except.toBool]

theorem idle_exec (commands : List Command) (h : s.poisoned = true ∨ ¬ Passes tx t s) :
    Idle ⟨t, s, .exec tx commands⟩ := by
  refine ⟨quiet_exec t s tx commands h, ?_⟩
  cases hr : replies? ⟨t, s, .exec tx commands⟩ with
  | none => simp only [commits, hr]
  | some replies =>
    obtain ⟨hsound, hpass⟩ := passes_of_replies rfl hr
    rcases h with h | h
    · rw [hsound] at h
      cases h
    · exact absurd hpass h

end Visit

/-- Under a transaction that vouches for an integer a commit is idle, or passes where its key holds the
integer. -/
theorem Vouches.idle_or_held (h : Vouches tx key n t s) (commands : List Command) :
    Visit.Idle ⟨t, s, .exec tx commands⟩ ∨
      (s.poisoned = false ∧ Passes tx t s ∧ (s.state.unchanged tx.watched t).2 = s.state ∧
        ∃ b until_, s.state.live t key = some ⟨.bytes b, until_⟩ ∧ decode key b = .ok n) := by
  cases hp : s.poisoned with
  | true => exact .inl (Visit.idle_exec commands (.inl hp))
  | false =>
    by_cases hpass : Passes tx t s
    · exact .inr ⟨rfl, hpass, h t s .refl hp hpass⟩
    · exact .inl (Visit.idle_exec commands (.inr hpass))

/-- How a program goes on behind a commit: to the first end if it was carried out with every command, and
otherwise to the second or to a failure. -/
theorem afterCommit_course {commands : List Command}
    {carriedOut refused : Program Transaction (Except Error α)}
    (h : Course t' s' p' t (s.call t (.exec tx commands)).2
      (afterCommit carriedOut refused (s.call t (.exec tx commands)).1) visits) :
    (Visit.commits ⟨t, s, .exec tx commands⟩ = true ∧
        Course t' s' p' t (s.call t (.exec tx commands)).2 carriedOut visits) ∨
      (Visit.commits ⟨t, s, .exec tx commands⟩ = false ∧
        ((visits = [] ∧ ∃ e, p' = .done (.error e)) ∨
          Course t' s' p' t (s.call t (.exec tx commands)).2 refused visits)) := by
  -- by the answer: a failure, a refusal, or replies, one of which may still be an error
  simp only [Visit.commits, Visit.replies?, Visit.answer]
  generalize (s.call t (.exec tx commands)).1 = answer at h
  replace h : Course t' s' p' t (s.call t (.exec tx commands)).2
      (afterCommit (τ := Transaction) carriedOut refused answer) visits := h
  cases answer with
  | error e =>
    obtain ⟨rfl, rfl⟩ := h.done_inv
    exact .inr ⟨rfl, .inl ⟨rfl, e, rfl⟩⟩
  | ok answer =>
    cases answer with
    | none => exact .inr ⟨rfl, .inr h⟩
    | some replies =>
      replace h : Course t' s' p' t (s.call t (.exec tx commands)).2
          (andThen (fun _ => carriedOut) (Reply.check replies)) visits := h
      cases hcheck : Reply.check replies with
      | error e =>
        rw [hcheck] at h
        obtain ⟨rfl, rfl⟩ := h.done_inv
        exact .inr ⟨by simp [Call.replies?, hcheck, Except.isOk, Except.toBool], .inl ⟨rfl, e, rfl⟩⟩
      | ok replies' =>
        rw [hcheck] at h
        exact .inl ⟨by simp [Call.replies?, hcheck, Except.isOk, Except.toBool], h⟩

/-! ## The round as a whole -/

section Landing

variable {effect : Except Error α → Option (Visit → Prop)}

/-- A commit that is idle or has the effect that its result stands for. -/
theorem commit_lands {commands : List Command}
    {carriedOut refused : Program Transaction (Except Error α)}
    {r₁ r₂ : Except Error α} {did : Visit → Prop} (herror : ∀ e, effect (.error e) = none)
    (hv : ∀ t₁ s₁, Reaches t s t₁ s₁ → Visit.Idle ⟨t₁, s₁, .exec tx commands⟩ ∨
      (Visit.commits ⟨t₁, s₁, .exec tx commands⟩ = true ∧ did ⟨t₁, s₁, .exec tx commands⟩))
    (hcarried : Ends r₁ carriedOut) (hdid : effect r₁ = some did)
    (hrefused : Ends r₂ refused) (hnone : effect r₂ = none)
    (h : Course t' s' p' t s (.call (.exec tx commands) (afterCommit carriedOut refused)) visits) :
    Lands effect p' visits := by
  rcases h.call_inv with ⟨rfl, rfl⟩ | ⟨t₁, s₁, rest, hr₁, rfl, hc⟩
  · exact .nil fun _ h => by cases h
  rcases afterCommit_course hc with ⟨hcommits, hc⟩ | ⟨hnot, hend⟩
  · obtain ⟨rfl, hleft⟩ := hcarried.course hc
    rcases hv t₁ s₁ hr₁ with hidle | ⟨-, hlast⟩
    · rw [hidle.not_commits] at hcommits
      cases hcommits
    · exact .single hdid hcommits hlast hleft
  · have hidle : Visit.Idle ⟨t₁, s₁, .exec tx commands⟩ := by
      rcases hv t₁ s₁ hr₁ with hidle | ⟨hcommits, -⟩
      · exact hidle
      · rw [hnot] at hcommits
        cases hcommits
    rcases hend with ⟨rfl, e, rfl⟩ | hc
    · refine .idle (List.forall_mem_singleton.mpr hidle) fun r h => ?_
      cases h
      exact herror e
    · obtain ⟨rfl, hleft⟩ := hrefused.course hc
      exact .idle (List.forall_mem_singleton.mpr hidle) fun r h => hleft r h ▸ hnone

/-- A round has the effect of what it does under a transaction that vouches for an integer. -/
theorem opened_lands {c : Counter} {k : Transaction → Int64 → Program Transaction (Except Error α)}
    (hs : s.WellFormed) (herror : ∀ e, effect (.error e) = none)
    (hk : ∀ tx n t₁ s₁ rest, Vouches tx c.key n t₁ s₁ → Course t' s' p' t₁ s₁ (k tx n) rest →
      Lands effect p' rest)
    (h : Course t' s' p' t s (c.opened k) visits) : Lands effect p' visits := by
  rcases opened_course hs h with ⟨hidle, hp⟩ | ⟨tx, n, t₁, s₁, first, rest, rfl, hidle, -, hvouches, hc⟩
  · refine .idle hidle fun r hr => ?_
    obtain ⟨e, rfl⟩ := hp r hr
    exact herror e
  · exact (hk tx n t₁ s₁ rest hvouches hc).append_idle hidle

end Landing

end WatchedStore.Memory
