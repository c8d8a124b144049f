import WatchedStore.Program
import WatchedStore.Proofs.Clients.Visit

/-!
# The course of one program among others

A program makes its calls one by one; in between anybody does anything, and time passes. A `Course` is
what happens from one moment to another as the program sees it: the calls that it made itself, and how
much of the program is left.

The inversions take a course apart from the front, one step of the program at a time, or one part of it
(`Course.bind_inv`). What happened
between two steps is `Reaches`, so all that is known of it is what holds of any deeds. What a program can
call at all, in whatever course, is read off the program (`Course.only`).
-/

namespace WatchedStore.Memory

/-- **What happens from one moment to another, as a program sees it.** The end stands first: when it is,
what store there is and what is left of the program; then the start in the same way, and the calls that
the program made. -/
inductive Course (t' : Instant) (s' : Store) (p' : Program Transaction α) :
    Instant → Store → Program Transaction α → List Visit → Prop
  | stop : Course t' s' p' t' s' p' []
  | wait {t t₁ : Instant} {s : Store} {p : Program Transaction α} {visits : List Visit}
    (later : t ≤ t₁) (h : Course t' s' p' t₁ s p visits) : Course t' s' p' t s p visits
  | other {t : Instant} {s : Store} {p : Program Transaction α} {visits : List Visit} (d : Deed)
    (h : Course t' s' p' t (s.perform t d) p visits) : Course t' s' p' t s p visits
  | call {t : Instant} {s : Store} {c : Call Transaction}
    {next : Except Error c.Answer → Program Transaction α} {visits : List Visit}
    (h : Course t' s' p' t (s.call t c).2 (next (s.call t c).1) visits) :
    Course t' s' p' t s (.call c next) (⟨t, s, c⟩ :: visits)
  | report {t : Instant} {s : Store} {e : Event} {next : Program Transaction α} {visits : List Visit}
    (h : Course t' s' p' t s next visits) : Course t' s' p' t s (.report e next) visits
  | pause {t : Instant} {s : Store} {d : Duration} {next : Program Transaction α}
    {visits : List Visit} (h : Course t' s' p' t s next visits) :
    Course t' s' p' t s (.pause d next) visits

/-- **The calls of a program, by their answers**: what it is at first, the calls, and what is left of it.
The answers decide which calls come next, and how the program ends. -/
inductive Follows : Program Transaction α → List Visit → Program Transaction α → Prop
  | stop {p : Program Transaction α} : Follows p [] p
  | call {v : Visit} {next : Except Error v.call.Answer → Program Transaction α} {visits : List Visit}
    {p' : Program Transaction α} (h : Follows (next v.answer) visits p') :
    Follows (.call v.call next) (v :: visits) p'
  | report {e : Event} {next p' : Program Transaction α} {visits : List Visit}
    (h : Follows next visits p') : Follows (.report e next) visits p'
  | pause {d : Duration} {next p' : Program Transaction α} {visits : List Visit}
    (h : Follows next visits p') : Follows (.pause d next) visits p'

namespace Course

variable {t t' : Instant} {s s' : Store} {p p' : Program Transaction α} {visits : List Visit}

/-- A course whose program stands before a call has made that call at some moment, or ends before it. -/
theorem call_inv {c : Call Transaction} {next : Except Error c.Answer → Program Transaction α}
    (h : Course t' s' p' t s (.call c next) visits) :
    (visits = [] ∧ p' = .call c next) ∨
      ∃ t₁ s₁ rest, Reaches t s t₁ s₁ ∧ visits = ⟨t₁, s₁, c⟩ :: rest ∧
        Course t' s' p' t₁ (s₁.call t₁ c).2 (next (s₁.call t₁ c).1) rest := by
  generalize hp : Program.call c next = p at h
  induction h with
  | stop => exact .inl ⟨rfl, rfl⟩
  | wait later _ ih =>
    rcases ih hp with hend | ⟨t₁, s₁, rest, hr, hv, hc⟩
    · exact .inl hend
    · exact .inr ⟨t₁, s₁, rest, (Reaches.refl.wait later).trans hr, hv, hc⟩
  | other d _ ih =>
    rcases ih hp with hend | ⟨t₁, s₁, rest, hr, hv, hc⟩
    · exact .inl hend
    · exact .inr ⟨t₁, s₁, rest, (Reaches.refl.deed d).trans hr, hv, hc⟩
  | call h =>
    cases hp
    exact .inr ⟨_, _, _, .refl, rfl, h⟩
  | report => cases hp
  | pause => cases hp

theorem done_inv {r : α} (h : Course t' s' p' t s (.done r) visits) :
    visits = [] ∧ p' = .done r := by
  generalize hp : Program.done r = p at h
  induction h with
  | stop => exact ⟨rfl, rfl⟩
  | wait _ _ ih => exact ih hp
  | other _ _ ih => exact ih hp
  | call => cases hp
  | report => cases hp
  | pause => cases hp

/-- Before a report the course ends, or goes on as that of what follows. -/
theorem report_inv {e : Event} {next : Program Transaction α}
    (h : Course t' s' p' t s (.report e next) visits) :
    (visits = [] ∧ p' = .report e next) ∨ Course t' s' p' t s next visits := by
  generalize hp : Program.report e next = p at h
  induction h with
  | stop => exact .inl ⟨rfl, rfl⟩
  | wait later _ ih => exact (ih hp).imp_right (.wait later)
  | other d _ ih => exact (ih hp).imp_right (.other d)
  | call => cases hp
  | report h =>
    cases hp
    exact .inr h
  | pause => cases hp

/-- Before a pause the course ends, or goes on as that of what follows. -/
theorem pause_inv {d : Duration} {next : Program Transaction α}
    (h : Course t' s' p' t s (.pause d next) visits) :
    (visits = [] ∧ p' = .pause d next) ∨ Course t' s' p' t s next visits := by
  generalize hp : Program.pause d next = p at h
  induction h with
  | stop => exact .inl ⟨rfl, rfl⟩
  | wait later _ ih => exact (ih hp).imp_right (.wait later)
  | other d' _ ih => exact (ih hp).imp_right (.other d')
  | call => cases hp
  | report => cases hp
  | pause h =>
    cases hp
    exact .inr h

/-- In a course the program makes its calls, by the answers that it gets. -/
theorem follows (h : Course t' s' p' t s p visits) : Follows p visits p' := by
  induction h with
  | stop => exact .stop
  | wait _ _ ih => exact ih
  | other _ _ ih => exact ih
  | @call t₁ s₁ c _ _ _ ih => exact Follows.call (v := ⟨t₁, s₁, c⟩) ih
  | report _ ih => exact .report ih
  | pause _ ih => exact .pause ih

theorem reaches (h : Course t' s' p' t s p visits) : Reaches t s t' s' := by
  induction h with
  | stop => exact .refl
  | wait later _ ih => exact (Reaches.refl.wait later).trans ih
  | other d _ ih => exact (Reaches.refl.deed d).trans ih
  | @call _ _ c _ _ _ ih => exact (Reaches.refl.deed (.call c)).trans ih
  | report _ ih => exact ih
  | pause _ ih => exact ih

theorem of_reaches {t₁ : Instant} {s₁ : Store} (hr : Reaches t s t₁ s₁)
    (h : Course t' s' p' t₁ s₁ p visits) : Course t' s' p' t s p visits := by
  induction hr with
  | refl => exact h
  | wait _ later ih => exact ih (h.wait later)
  | deed _ d ih => exact ih (h.other d)

/-- **A course of a program with another behind it** ends within the first, or comes to the first one's
result and goes on with the second. -/
theorem bind_inv {q : Program Transaction β} {k : β → Program Transaction α}
    (h : Course t' s' p' t s (q.bind k) visits) :
    (∃ q', (∀ r, q' ≠ .done r) ∧ p' = q'.bind k ∧ Course t' s' q' t s q visits) ∨
      ∃ r t₁ s₁ first rest, visits = first ++ rest ∧ Course t₁ s₁ (.done r) t s q first ∧
        Course t' s' p' t₁ s₁ (k r) rest := by
  -- a course cannot be split by its own steps, since waiting and others' deeds come in at any place:
  -- the induction is on the first program
  induction q generalizing t s visits with
  | done r => exact .inr ⟨r, t, s, [], visits, rfl, .stop, h⟩
  | call c next ih =>
    rcases h.call_inv with ⟨rfl, hp⟩ | ⟨t₁, s₁, rest, hr, rfl, hc⟩
    · exact .inl ⟨.call c next, (fun _ h => by cases h), hp, of_reaches h.reaches .stop⟩
    · rcases ih _ hc with ⟨q', hnot, hq, hc⟩ | ⟨r, t₂, s₂, first, rest, rfl, hc, hrest⟩
      · exact .inl ⟨q', hnot, hq, of_reaches hr hc.call⟩
      · exact .inr ⟨r, t₂, s₂, _, rest, rfl, of_reaches hr hc.call, hrest⟩
  | report e next ih =>
    rcases h.report_inv with ⟨rfl, hp⟩ | hc
    · exact .inl ⟨.report e next, (fun _ h => by cases h), hp, of_reaches h.reaches .stop⟩
    · rcases ih hc with ⟨q', hnot, hq, hc⟩ | ⟨r, t₂, s₂, first, rest, rfl, hc, hrest⟩
      · exact .inl ⟨q', hnot, hq, hc.report⟩
      · exact .inr ⟨r, t₂, s₂, first, rest, rfl, hc.report, hrest⟩
  | pause d next ih =>
    rcases h.pause_inv with ⟨rfl, hp⟩ | hc
    · exact .inl ⟨.pause d next, (fun _ h => by cases h), hp, of_reaches h.reaches .stop⟩
    · rcases ih hc with ⟨q', hnot, hq, hc⟩ | ⟨r, t₂, s₂, first, rest, rfl, hc, hrest⟩
      · exact .inl ⟨q', hnot, hq, hc.pause⟩
      · exact .inr ⟨r, t₂, s₂, first, rest, rfl, hc.pause, hrest⟩

end Course

/-! ## Which calls a program may make -/

/-- **A program all of whose calls are of one kind**, whatever they are answered. -/
inductive Only (P : Call Transaction → Prop) : Program Transaction α → Prop
  | done {r : α} : Only P (.done r)
  | call {c : Call Transaction} {next : Except Error c.Answer → Program Transaction α} (hc : P c)
    (hnext : ∀ a, Only P (next a)) : Only P (.call c next)
  | report {e : Event} {next : Program Transaction α} (h : Only P next) : Only P (.report e next)
  | pause {d : Duration} {next : Program Transaction α} (h : Only P next) : Only P (.pause d next)

variable {P : Call Transaction → Prop}

theorem Only.bind {q : Program Transaction β} {k : β → Program Transaction α} (h : Only P q)
    (hk : ∀ r, Only P (k r)) : Only P (q.bind k) := by
  induction h with
  | done => exact hk _
  | call hc _ ih => exact .call hc ih
  | report _ ih => exact .report ih
  | pause _ ih => exact .pause ih

/-- The calls in a course are such as the program may make. -/
theorem Course.only {t t' : Instant} {s s' : Store} {p p' : Program Transaction α}
    {visits : List Visit} (hc : Course t' s' p' t s p visits) (h : Only P p) :
    ∀ v ∈ visits, P v.call := by
  induction hc with
  | stop => exact fun _ hv => absurd hv List.not_mem_nil
  | wait _ _ ih => exact ih h
  | other _ _ ih => exact ih h
  | call _ ih =>
    cases h with
    | call hc hnext => exact List.forall_mem_cons.mpr ⟨hc, ih (hnext _)⟩
  | report _ ih =>
    cases h with
    | report h => exact ih h
  | pause _ ih =>
    cases h with
    | pause h => exact ih h

end WatchedStore.Memory
