import WatchedStore.Proofs.Clients.Landing
import WatchedStore.Proofs.Clients.Solo

/-!
# Failures without effect

A program fails quietly if all its calls have been without effect once it has failed, whatever others do in
between (`FailsQuietly`). A program that is put together from calls that are quiet where they fail, and that
cannot fail behind another one, is of this kind; there is a lemma for each way to put one together.

**The law** (`FailsQuietly.live_run`): a client that has a store to itself leaves what all keys hold if it
fails in this way. A run of such a client is a course, with time and clean-ups for all that others do
(`Solo.course`), so what is proved of clients among others holds of it.
-/

namespace WatchedStore

/-- One program and then another, run one after the other. -/
theorem Program.run_bind {σ τ α β : Type} (b : Backend σ τ) (p : Program τ α)
    (f : α → Program τ β) (s : σ) : (p.bind f).run b s = (f (p.run b s).1).run b (p.run b s).2 := by
  induction p generalizing s with
  | done => rfl
  | call c next ih => exact ih _ _
  | report event next ih => exact ih _
  | pause span next ih => exact ih _

namespace Memory

/-! ## A client alone -/

namespace Solo

variable {solo : Solo}

theorem reaches_next (solo : Solo) :
    Reaches solo.now solo.store solo.next.now solo.next.store :=
  next_keeps (I := fun now s => Reaches solo.now solo.store now s) (fun h hle => h.wait hle)
    (fun h => h.deed .cleanUp) .refl

/-- Up to the next call a store comes to hold what it would hold by then if nothing happened. -/
theorem live_met (solo : Solo) :
    solo.next.store.state.live solo.next.now = solo.store.state.live solo.next.now := by
  funext key
  rw [solo.live_next, ← State.live_later _ solo.next_le]

end Solo

/-- Contents that are alike stay alike as time passes. -/
theorem State.live_eq_later {s s' : State} {now later : Instant} (h : s'.live now = s.live now)
    (hle : now ≤ later) : s'.live later = s.live later := by
  funext key
  rw [s'.live_later hle, s.live_later hle, h]

/-- **A run of a client alone is a course.** If all its calls are quiet, the store holds in the end what it
would hold by then if there had been none. -/
theorem Solo.course (p : Program Transaction α) (solo : Solo) :
    let out := p.run Solo.backend solo
    ∃ visits, Course out.2.now out.2.store (.done out.1) solo.now solo.store p visits ∧
      ((∀ v ∈ visits, v.Quiet) →
        out.2.store.state.live out.2.now = solo.store.state.live out.2.now) := by
  induction p generalizing solo with
  | done => exact ⟨[], .stop, fun _ => rfl⟩
  | call c next ih =>
    obtain ⟨visits, hc, hlive⟩ := ih (solo.call c).1 (solo.call c).2
    refine ⟨⟨solo.next.now, solo.next.store, c⟩ :: visits,
      .of_reaches solo.reaches_next (.call hc), fun hquiet => ?_⟩
    obtain ⟨hfirst, hrest⟩ := List.forall_mem_cons.mp hquiet
    rw [solo.run_call]
    have hmet : (solo.call c).2.store.state.live solo.next.now =
        solo.store.state.live solo.next.now := Eq.trans hfirst solo.live_met
    exact (hlive hrest).trans (State.live_eq_later hmet hc.reaches.le)
  | report _ _ ih => exact (ih solo).imp fun _ h => ⟨h.1.report, h.2⟩
  | pause _ _ ih => exact (ih solo).imp fun _ h => ⟨h.1.pause, h.2⟩

/-! ## Programs that fail quietly -/

/-- **A program that fails quietly**: once it has failed, all its calls were without effect, whatever others
did in between. -/
structure FailsQuietly (p : Program Transaction (Except Error α)) : Prop where
  quiet : ∀ {t t' : Instant} {s s' : Store} {e : Error} {visits : List Visit}, s.WellFormed →
    Course t' s' (.done (.error e)) t s p visits → ∀ v ∈ visits, v.Quiet

namespace FailsQuietly

theorem of_ends {r : Except Error α} {p : Program Transaction (Except Error α)} (h : Ends r p) :
    FailsQuietly p := by
  refine ⟨fun hs hc v hv => ?_⟩
  obtain ⟨rfl, -⟩ := h.course hc
  exact absurd hv List.not_mem_nil

theorem report {event : Event} {p : Program Transaction (Except Error α)} (h : FailsQuietly p) :
    FailsQuietly (.report event p) := by
  refine ⟨fun hs hc => ?_⟩
  rcases hc.report_inv with ⟨-, hp⟩ | hc
  · cases hp
  · exact h.quiet hs hc

/-- A call behind which a program cannot fail, or that is without effect and goes on to one that fails
quietly. -/
theorem call {c : Call Transaction}
    {next : Except Error c.Answer → Program Transaction (Except Error α)}
    (h : ∀ t s, (∃ a, Ends (.ok a) (next (s.call t c).1)) ∨
      (Visit.Quiet ⟨t, s, c⟩ ∧ FailsQuietly (next (s.call t c).1))) :
    FailsQuietly (.call c next) := by
  refine ⟨fun hs hc => ?_⟩
  rcases hc.call_inv with ⟨-, hp⟩ | ⟨t₁, s₁, rest, hr, rfl, hrest⟩
  · cases hp
  rcases h t₁ s₁ with ⟨a, hend⟩ | ⟨hquiet, hnext⟩
  · obtain ⟨-, hleft⟩ := hend.course hrest
    cases hleft _ rfl
  · exact List.forall_mem_cons.mpr ⟨hquiet, hnext.quiet ((hr.deed (.call c)).wellFormed hs) hrest⟩

/-- A program with at most one effect has none if it fails. -/
theorem of_lands {effect : Except Error α → Option (Visit → Prop)}
    {p : Program Transaction (Except Error α)} (herror : ∀ e, effect (.error e) = none)
    (h : ∀ {t t' : Instant} {s s' : Store} {p' : Program Transaction (Except Error α)}
      {visits : List Visit}, s.WellFormed → Course t' s' p' t s p visits → Lands effect p' visits) :
    FailsQuietly p :=
  ⟨fun hs hc => (h hs hc).of_none (herror _)⟩

/-- **A client alone with a store leaves it alone if it fails quietly.** -/
theorem live_run {p : Program Transaction (Except Error α)} (h : FailsQuietly p) {solo : Solo}
    (hs : solo.store.WellFormed) {e : Error} (herror : (p.run Solo.backend solo).1 = .error e) :
    (p.run Solo.backend solo).2.store.state.live (p.run Solo.backend solo).2.now =
      solo.store.state.live (p.run Solo.backend solo).2.now := by
  obtain ⟨visits, hc, hlive⟩ := solo.course p
  rw [herror] at hc
  exact hlive (h.quiet hs hc)

end FailsQuietly

/-! ## Requests -/

/-- A direct operation but a batch that fails is without effect. -/
theorem Visit.quiet_of_error {t : Instant} {s : Store} {r : Request} {e : Error}
    (hr : ∀ commands, r ≠ .batch commands) (h : (s.request t r).1 = .error e) :
    Quiet ⟨t, s, .request r⟩ := by
  show (s.request t r).2.state.live t = s.state.live t
  rcases Rule.ruled_or_refused_or_batch t r with ⟨key, rule, hrule⟩ | hrefused | ⟨commands, hbatch⟩
  · cases hp : s.poisoned with
    | true => rw [request_of_poisoned hp hrule]
    | false =>
      rw [request_fst_of_sound hp hrule] at h
      rw [Store.request_eq_follow hrule, Store.locked_of_sound hp]
      obtain ⟨shown, hshows, hchanges⟩ := hrule.shows
      refine State.live_follow_keep _ _ (hshows.keeps (fun e hshown => ?_) h)
      exact not_changes_error r e key ((hchanges _ key).mpr ⟨rfl, hshown⟩)
  · rw [hrefused]
  · exact absurd hbatch (hr commands)

end Memory

end WatchedStore
