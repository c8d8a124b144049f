import WatchedStore.Proofs.Memory.Watch

/-!
# Conflicts are detected exactly

A transaction is opened on some keys, then anybody does anything, then it commits. The commit is refused
exactly if one of the keys was changed in between, as the answers tell it, or held an entry whose deadline
has passed by the reading of the commit, whether or not anybody removed it (`exec_eq_none_iff_changed`).

A crash breaks off an operation half-way and poisons the lock. After one, no operation is carried out any
more; a commit fails instead of being refused.
-/

namespace WatchedStore.Memory

namespace Store

/-- The store after deeds. -/
def after (s : Store) : List (Instant × Deed) → Store
  | [] => s
  | (now, d) :: rest => (s.perform now d).after rest

/-- Whether one of the deeds changed a key, by its answer. -/
def ChangedDuring (key : String) (s : Store) : List (Instant × Deed) → Prop
  | [] => False
  | (now, d) :: rest => s.Changes now key d ∨ (s.perform now d).ChangedDuring key rest

/-- Whether a deed crashes. -/
def Crashes (now : Instant) (s : Store) : Deed → Prop
  | .call c => crashed (s.call now c).1 = true
  | .cleanUp => False

/-- Whether one of the deeds crashed. -/
def CrashedDuring (s : Store) : List (Instant × Deed) → Prop
  | [] => False
  | (now, d) :: rest => s.Crashes now d ∨ (s.perform now d).CrashedDuring rest

end Store

variable {tx : Transaction} {keys : List String} {t t' : Instant} {s : Store}
  {run : List (Instant × Deed)}

theorem reaches_after (h : Ordered t run t') : Reaches t s t' (s.after run) := by
  induction run generalizing t s with
  | nil => exact Reaches.refl.wait h
  | cons step rest ih => exact ((Reaches.refl.wait h.1).deed step.2).trans (ih h.2)

theorem poisoned_perform (h : s.poisoned = false) (now : Instant) (d : Deed) :
    (s.perform now d).poisoned = true ↔ s.Crashes now d := by
  cases d with
  | call c =>
    rw [Store.perform, Store.poisoned_call now h]
    rfl
  | cleanUp => simp [Store.perform, Store.Crashes, h, Store.cleanUp]

theorem after_of_poisoned (h : s.poisoned = true) (run : List (Instant × Deed)) :
    s.after run = s := by
  induction run with
  | nil => rfl
  | cons step rest ih => rw [Store.after, Store.perform_of_poisoned _ h, ih]

/-- The lock is poisoned exactly if something crashed. -/
theorem poisoned_after (h : s.poisoned = false) (run : List (Instant × Deed)) :
    (s.after run).poisoned = true ↔ s.CrashedDuring run := by
  induction run generalizing s with
  | nil => simp [Store.after, Store.CrashedDuring, h]
  | cons step rest ih =>
    rw [Store.after, Store.CrashedDuring, ← poisoned_perform h]
    cases hp : (s.perform step.1 step.2).poisoned with
    | true => simp [after_of_poisoned hp, hp]
    | false => simp [ih hp]

/-- **Between two readings a key is changed, or overdue by the end, or spared**; what was changed is not
spared. -/
theorem changed_or_overdue_or_spared (hs : s.WellFormed) (hrun : Ordered t run t')
    (hsound : (s.after run).poisoned = false) (key : String) :
    (s.ChangedDuring key run → s.state.clock < (s.after run).state.version key) ∧
      (s.ChangedDuring key run ∨ s.state.Overdue key t' ∨ Spared key s.state (s.after run).state) := by
  induction run generalizing t s with
  | nil => exact ⟨False.elim, .inr (.inr (.refl _ _))⟩
  | cons step rest ih =>
    obtain ⟨now, d⟩ := step
    rw [Store.after] at hsound ⊢
    have hreach : Reaches now (s.perform now d) t' ((s.perform now d).after rest) :=
      reaches_after hrun.2
    obtain ⟨changed, hadv, hchanged⟩ := s.perform_advances now hs d
    have hwellFormed := hs.perform now d
    have hiff := hchanged (hreach.sound hsound) key
    obtain ⟨hnewer, hrest⟩ := ih hwellFormed hrun.2 hsound
    -- what this deed touches stays newer than the start, whatever comes behind it
    have hlater : s.state.clock < (s.perform now d).state.version key →
        s.state.clock < ((s.perform now d).after rest).state.version key := by
      intro hlt
      rcases (hreach.spared_or_newer hwellFormed key).2 with hs | hn
      · rw [hs.version]
        exact hlt
      · exact Nat.lt_of_le_of_lt hadv.clock_le hn
    refine ⟨?_, ?_⟩
    · rintro (hc | hc)
      · exact hlater (hadv.touched_of_changed key (hiff.mpr hc)).newer
      · exact Nat.lt_of_le_of_lt hadv.clock_le (hnewer hc)
    · rcases hadv.spared_or_touched key with hs | ⟨-, hc | ho⟩
      · rcases hrest with hc | ho | hs'
        · exact .inl (.inr hc)
        · exact .inr (.inl ((hs.overdue_iff t').mp ho))
        · exact .inr (.inr (hs.trans hs'))
      · exact .inl (.inl (hiff.mp hc))
      · exact .inr (.inl (ho.mono hreach.le))

/-- **Conflicts are detected exactly.** From any reachable store, a transaction is opened on some keys,
and any deeds happen before it commits. If nothing crashed in between, the commit is refused exactly if
one of the keys was changed, or what it held at the opening has passed its deadline by the reading of the
commit. If something crashed, the commit fails. -/
theorem exec_eq_none_iff_changed (hs : Reachable t s) (hopen : (s.call t (.watch keys)).1 = .ok tx)
    (hrun : Ordered t run t') (commands : List Command) :
    let opened := (s.call t (.watch keys)).2
    let answer := ((opened.after run).call t' (.exec tx commands)).1
    (answer = .ok none ↔ ¬ opened.CrashedDuring run ∧
      ∃ key ∈ keys, opened.ChangedDuring key run ∨
        ∃ e, s.state.live t key = some e ∧ e.isExpired t' = true) ∧
    (opened.CrashedDuring run → answer = .error Store.lockPoisoned) := by
  intro opened answer
  have hw : Watches tx keys t opened := watches_of_call hs.wellFormed hopen
  have hcrash := poisoned_after hw.sound run
  refine ⟨?_, fun h => ?_⟩
  · rw [call_exec_eq_none_iff, ← Bool.not_eq_true, hcrash, hw.passes_iff (reaches_after hrun)]
    refine and_congr_right fun hnot => ?_
    have hsound : (opened.after run).poisoned = false :=
      Bool.eq_false_iff.mpr fun hp => hnot (hcrash.mp hp)
    have hkey := changed_or_overdue_or_spared hw.wellFormed hrun hsound
    constructor
    · intro hfail
      simp only [Classical.not_forall] at hfail
      obtain ⟨key, hmem, hfail⟩ := hfail
      refine ⟨key, hmem, ?_⟩
      rw [← overdue_call_watch hw hmem]
      rcases (hkey key).2 with hc | ho | hspared
      · exact .inl hc
      · exact .inr ho
      · -- spared, so the check can only have failed because the key is overdue
        refine .inr ((hspared.overdue_iff t').mp (Classical.not_not.mp fun hnot => ?_))
        exact hfail ⟨hspared, hnot⟩
    · rintro ⟨key, hmem, hwhy⟩ hall
      rw [← overdue_call_watch hw hmem] at hwhy
      obtain ⟨hspared, hnot⟩ := hall key hmem
      rcases hwhy with hc | ho
      · -- a version newer than the opening is not one that the watch has read
        have hnewer := (hkey key).1 hc
        rw [hspared.version] at hnewer
        exact absurd hnewer (Nat.not_lt.mpr (hw.wellFormed.version_le key))
      · exact hnot ((hspared.overdue_iff t').mpr ho)
  · exact congrArg Prod.fst (call_exec_of_poisoned (hcrash.mpr h) tx commands t')

/-- A watched key that somebody sets, and that nobody removes again, refuses the commit, although the
other watched key was left alone and a clean-up came by. -/
theorem exec_refused_after_set :
    let s : Store := { maxEntries := 2 }
    let run : List (Instant × Deed) :=
      [(3, .call (.request (.contains "a"))), (3, .call (.request (.set "b" [0x31] none))),
        (4, .cleanUp)]
    (((s.call 1 (.watch ["a", "b"])).2.after run).call 5
      (.exec ⟨[("a", 0), ("b", 0)]⟩ [.increment "a" 1])).1 = .ok none := by
  intro s run
  have hopen : (s.call 1 (.watch ["a", "b"])).1 = .ok ⟨[("a", 0), ("b", 0)]⟩ := rfl
  have hreach : Reachable 1 s := ⟨2, Reaches.refl.wait (by decide)⟩
  have hrun : Ordered 1 run 5 := by simp [run, Ordered]
  refine (exec_eq_none_iff_changed hreach hopen hrun [.increment "a" 1]).1.mpr
    ⟨?_, "b", by decide, .inl ?_⟩
  · exact fun hcrash => absurd ((poisoned_after rfl run).mpr hcrash) (by decide)
  · exact .inr (.inl ⟨rfl, rfl⟩)

/-- The longest span of time, at whose end no clock has a reading. -/
def longest : Duration := ⟨18446744073709551615999999999, by decide⟩

/-- **A crash keeps a commit from being refused.** Without the exception for crashes the law is false:
here a watched key is set, a deadline that no clock can show crashes another call, and the commit
fails. -/
theorem not_exec_eq_none_iff_changed :
    ¬ ∀ (t t' : Instant) (s : Store) (keys : List String) (tx : Transaction)
        (run : List (Instant × Deed)) (commands : List Command),
      Reachable t s → (s.call t (.watch keys)).1 = .ok tx → Ordered t run t' →
        ((((s.call t (.watch keys)).2.after run).call t' (.exec tx commands)).1 = .ok none ↔
          ∃ key ∈ keys, (s.call t (.watch keys)).2.ChangedDuring key run ∨
            ∃ e, s.state.live t key = some e ∧ e.isExpired t' = true) := by
  intro hall
  let run : List (Instant × Deed) :=
    [(0, .call (.request (.set "a" [0x31] none))),
      (0, .call (.request (.set "b" [0x31] (some longest))))]
  have hiff := hall 0 0 { maxEntries := 2 } ["a"] ⟨[("a", 0)]⟩ run [] ⟨2, .refl⟩ rfl
    (by simp [run, Ordered])
  have hrefused := hiff.mpr ⟨"a", by decide, .inl (.inl ⟨rfl, rfl⟩)⟩
  rw [call_exec_of_poisoned (by decide)] at hrefused
  cases hrefused

end WatchedStore.Memory
