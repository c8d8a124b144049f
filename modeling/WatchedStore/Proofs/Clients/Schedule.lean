import Mathlib.Data.List.Induction
import WatchedStore.Proofs.Clients.System

/-!
# Schedules, from their ends

What a client has done so far (`System.course`) is known of a schedule from its start, so an invariant of
many clients is carried along by taking schedules apart at their ends.

**The run law** (`System.log_invariant`): what holds of no calls and the store at the start, and is kept
by every call of a client and by all that leaves a key alone, holds of all calls and the store at the end,
if whatever others do leaves the key alone.
-/

namespace WatchedStore.Memory

variable {ι α : Type} [DecidableEq ι]

/-- Whether the deeds of others leave what a key holds alone. -/
def System.OthersSpare (key : String) (sys : System ι α) : List (Instant × Turn ι) → Prop
  | [] => True
  | (now, .client i) :: rest => (sys.turn now (.client i)).OthersSpare key rest
  | (now, .other d) :: rest =>
    (sys.store.perform now d).state.live now key = sys.store.state.live now key ∧
      (sys.turn now (.other d)).OthersSpare key rest

theorem othersSpare_append {key : String} {sys : System ι α} {pre post : List (Instant × Turn ι)} :
    sys.OthersSpare key (pre ++ post) ↔
      sys.OthersSpare key pre ∧ (sys.after pre).OthersSpare key post := by
  induction pre generalizing sys with
  | nil => exact ⟨fun h => ⟨trivial, h⟩, And.right⟩
  | cons step rest ih =>
    obtain ⟨now, who⟩ := step
    cases who with
    | client i => exact ih
    | other d => exact (and_congr_right fun _ => ih).trans and_assoc.symm

theorem ordered_append {β : Type} {t t' : Instant} {pre post : List (Instant × β)}
    (h : Ordered t (pre ++ post) t') : ∃ t₁, Ordered t pre t₁ ∧ Ordered t₁ post t' := by
  induction pre generalizing t with
  | nil => exact ⟨t, Nat.le_refl t, h⟩
  | cons step rest ih =>
    obtain ⟨t₁, hpre, hpost⟩ := ih h.2
    exact ⟨t₁, ⟨h.1, hpre⟩, hpost⟩

theorem ofClient_snoc (log : List (ι × Visit)) (i : ι) (v : Visit) :
    System.ofClient i (log ++ [(i, v)]) = System.ofClient i log ++ [v] := by
  simp [System.ofClient]

theorem mem_ofClient {log : List (ι × Visit)} {i : ι} {v : Visit} :
    v ∈ System.ofClient i log ↔ (i, v) ∈ log := by
  simp only [System.ofClient, List.mem_filterMap]
  constructor
  · rintro ⟨⟨j, v'⟩, hmem, hown⟩
    by_cases hj : j = i
    · simp only [hj, if_true, Option.some.injEq] at hown
      exact hj ▸ hown ▸ hmem
    · simp only [hj, if_false] at hown
      cases hown
  · exact fun hmem => ⟨(i, v), hmem, if_pos rfl⟩

/-- The clients with a call of some kind. -/
theorem mem_map_filter {log : List (ι × Visit)} {p : ι × Visit → Bool} {i : ι} :
    i ∈ (log.filter p).map Prod.fst ↔ ∃ v ∈ System.ofClient i log, p (i, v) = true := by
  simp only [List.mem_map, List.mem_filter, mem_ofClient]
  constructor
  · rintro ⟨⟨j, v⟩, hentry, rfl⟩
    exact ⟨v, hentry⟩
  · rintro ⟨v, hentry⟩
    exact ⟨(i, v), hentry, rfl⟩

/-- **An invariant of the calls of all clients and the store**, kept by every call and by whatever leaves a
key alone. -/
theorem System.log_invariant {sys : System ι α} {key : String} {t t' : Instant}
    {schedule : List (Instant × Turn ι)} {P : List (ι × Visit) → State → Prop}
    (hrun : Ordered t schedule t') (hothers : sys.OthersSpare key schedule)
    (hstart : P [] sys.store.state)
    (hother : ∀ {log s s' now}, P log s → s'.live now key = s.live now key → P log s')
    (hcall : ∀ {pre now t₁ i v}, Ordered t (pre ++ [(now, Turn.client i)]) t₁ →
      sys.log (pre ++ [(now, .client i)]) = sys.log pre ++ [(i, v)] →
      P (sys.log pre) v.store.state → P (sys.log pre ++ [(i, v)]) v.left.state) :
    P (sys.log schedule) (sys.after schedule).store.state := by
  induction schedule using List.reverseRecOn generalizing t' with
  | nil => exact hstart
  | append_singleton pre step ih =>
    obtain ⟨now, who⟩ := step
    obtain ⟨t₁, hpre, -⟩ := ordered_append hrun
    obtain ⟨hpreSpare, hlast⟩ := othersSpare_append.mp hothers
    have hbefore := ih hpre hpreSpare
    cases who with
    | other d =>
      rw [after_append, log_append]
      simp only [log, visit?, after, turn, Option.toList_none, List.append_nil]
      exact hother hbefore hlast.1
    | client i =>
      have hlog := sys.log_append pre [(now, .client i)]
      rw [after_append]
      simp only [log, visit?, after, turn, List.append_nil] at hlog ⊢
      cases hv : Memory.visit? now (sys.after pre).store ((sys.after pre).program i) with
      | none =>
        rw [hv] at hlog
        rw [hlog, advance_of_none hv]
        simpa using hbefore
      | some v =>
        obtain ⟨-, hstore, hleft⟩ := advance_of_some hv
        rw [hv] at hlog
        rw [hlog, hleft]
        exact hcall hrun hlog (hstore ▸ hbefore)

end WatchedStore.Memory
