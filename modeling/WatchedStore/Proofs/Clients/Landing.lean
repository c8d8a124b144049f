import WatchedStore.Proofs.Clients.Course

/-!
# Programs with at most one effect

Many programs are of one kind: they make calls without any effect, and at most one commit behind them,
and what the commit did shows in the result. `Lands` says this of the calls that such a program has made
so far and of what is left of it. So it holds of a course that ends early as well: if the commit has
happened, the result is settled.
-/

namespace WatchedStore.Memory

variable {α β : Type}

/-- **The calls of a program with at most one effect**, by what its result stands for: no effect, or a
property of the one commit that is its effect. -/
inductive Lands (effect : α → Option (Visit → Prop)) (left : Program Transaction α) : List Visit → Prop
  | idle {visits : List Visit} (hidle : ∀ v ∈ visits, v.Idle)
    (hleft : ∀ r, left = .done r → effect r = none) : Lands effect left visits
  | commit {first : List Visit} {last : Visit} {r : α} {did : Visit → Prop}
    (hidle : ∀ v ∈ first, v.Idle) (hr : effect r = some did) (hcommits : last.commits = true)
    (hdid : did last) (hleft : ∀ r', left = .done r' → r' = r) : Lands effect left (first ++ [last])

/-- A program that makes no call any more. -/
inductive Ends (r : α) : Program Transaction α → Prop
  | done : Ends r (.done r)
  | report {e : Event} {p : Program Transaction α} (h : Ends r p) : Ends r (.report e p)
  | pause {d : Duration} {p : Program Transaction α} (h : Ends r p) : Ends r (.pause d p)

theorem Ends.course {r : α} {t t' : Instant} {s s' : Store} {p p' : Program Transaction α}
    {visits : List Visit} (h : Ends r p) (hc : Course t' s' p' t s p visits) :
    visits = [] ∧ ∀ r', p' = .done r' → r' = r := by
  induction h with
  | done =>
    obtain ⟨rfl, rfl⟩ := hc.done_inv
    exact ⟨rfl, fun r' h => by cases h; rfl⟩
  | report h ih =>
    rcases hc.report_inv with ⟨rfl, rfl⟩ | hc
    · exact ⟨rfl, fun r' h => by cases h⟩
    · exact ih hc
  | pause h ih =>
    rcases hc.pause_inv with ⟨rfl, rfl⟩ | hc
    · exact ⟨rfl, fun r' h => by cases h⟩
    · exact ih hc

namespace Lands

variable {effect : α → Option (Visit → Prop)} {left : Program Transaction α} {visits : List Visit}

theorem append_idle {first : List Visit} (hfirst : ∀ v ∈ first, v.Idle)
    (h : Lands effect left visits) : Lands effect left (first ++ visits) := by
  cases h with
  | idle hidle hleft =>
    refine .idle (fun v hv => ?_) hleft
    rcases List.mem_append.mp hv with hv | hv
    · exact hfirst v hv
    · exact hidle v hv
  | @commit second last r did hidle hr hcommits hdid hleft =>
    rw [← List.append_assoc]
    refine .commit (fun v hv => ?_) hr hcommits hdid hleft
    rcases List.mem_append.mp hv with hv | hv
    · exact hfirst v hv
    · exact hidle v hv

theorem nil (h : ∀ r, left = .done r → effect r = none) : Lands effect left [] :=
  .idle (fun _ hv => absurd hv List.not_mem_nil) h

theorem single {v : Visit} {r : α} {did : Visit → Prop} (hr : effect r = some did)
    (hcommits : v.commits = true) (hdid : did v) (hleft : ∀ r', left = .done r' → r' = r) :
    Lands effect left [v] := by
  rw [← List.nil_append [v]]
  exact .commit (fun _ hv => absurd hv List.not_mem_nil) hr hcommits hdid hleft

/-- A result that stands for an effect is that of the last call, and the calls before it are quiet. -/
theorem of_effect {r : α} {did : Visit → Prop} (h : Lands effect (.done r) visits)
    (hr : effect r = some did) :
    ∃ first last, visits = first ++ [last] ∧ (∀ v ∈ first, v.Quiet) ∧ did last := by
  cases h with
  | idle _ hleft =>
    rw [hleft r rfl] at hr
    cases hr
  | @commit first last r' did' hidle hr' _ hdid hleft =>
    obtain rfl := hleft r rfl
    rw [hr] at hr'
    cases hr'
    exact ⟨first, last, rfl, fun v hv => (hidle v hv).quiet, hdid⟩

/-- A result that stands for no effect is that of quiet calls. -/
theorem of_none {r : α} (h : Lands effect (.done r) visits) (hr : effect r = none) :
    ∀ v ∈ visits, v.Quiet := by
  cases h with
  | idle hidle _ => exact fun v hv => (hidle v hv).quiet
  | commit _ hr' _ _ hleft =>
    obtain rfl := hleft r rfl
    rw [hr] at hr'
    cases hr'

/-- A result may stand for less. -/
theorem mono {effect' : α → Option (Visit → Prop)} (h : Lands effect left visits)
    (hsome : ∀ r did, effect r = some did → ∃ did', effect' r = some did' ∧ ∀ v, did v → did' v)
    (hnone : ∀ r, effect r = none → effect' r = none) : Lands effect' left visits := by
  cases h with
  | idle hidle hleft => exact .idle hidle fun r h => hnone r (hleft r h)
  | commit hidle hr hcommits hdid hleft =>
    obtain ⟨did', hr', hmono⟩ := hsome _ _ hr
    exact .commit hidle hr' hcommits (hmono _ hdid) hleft

/-- **Landing is passed on** to a program with another behind it: if the first has its effect, nothing
more happens; if it has none, the second lands. -/
theorem bind (effect' : β → Option (Visit → Prop)) {t t' : Instant} {s s' : Store}
    {q : Program Transaction β} {p' : Program Transaction α} {k : β → Program Transaction α}
    (hfirst : ∀ t₁ s₁ q' first, Course t₁ s₁ q' t s q first → Lands effect' q' first)
    (hends : ∀ r did, effect' r = some did → ∃ r', Ends r' (k r) ∧ effect r' = some did)
    (hgo : ∀ r t₁ s₁ rest, effect' r = none → Reaches t s t₁ s₁ → Course t' s' p' t₁ s₁ (k r) rest →
      Lands effect p' rest)
    (h : Course t' s' p' t s (q.bind k) visits) : Lands effect p' visits := by
  rcases h.bind_inv with ⟨q', hnot, rfl, hc⟩ | ⟨r, t₁, s₁, first, rest, rfl, hc, hrest⟩
  · -- the first is not over, so the whole has no result yet
    have hbind : ∀ r, q'.bind k ≠ .done r := by
      intro r h
      cases q' with
      | done r' => exact hnot r' rfl
      | _ => cases h
    cases hfirst t' s' q' visits hc with
    | idle hidle _ => exact .idle hidle fun r h => absurd h (hbind r)
    | commit hidle hr hcommits hdid _ =>
      obtain ⟨r', -, hr'⟩ := hends _ _ hr
      exact .commit hidle hr' hcommits hdid fun r h => absurd h (hbind r)
  · cases hfirst t₁ s₁ (.done r) first hc with
    | idle hidle hleft =>
      exact (hgo r t₁ s₁ rest (hleft r rfl) hc.reaches hrest).append_idle hidle
    | commit hidle hr hcommits hdid hleft =>
      obtain rfl := hleft r rfl
      -- its effect was the last call of all: what is behind it makes none
      obtain ⟨r', hend, hr'⟩ := hends _ _ hr
      obtain ⟨rfl, hdone⟩ := hend.course hrest
      rw [List.append_nil]
      exact .commit hidle hr' hcommits hdid hdone

end Lands

end WatchedStore.Memory
