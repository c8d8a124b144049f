import Mathlib.Data.Fin.Tuple.Basic
import WatchedStore.Memory.Host
import WatchedStore.Proofs.Clients.Schedule
import WatchedStore.Proofs.Memory.Effect

/-!
# Clients one behind the other

Under a schedule clients take their turns in any order, so some schedules let one client come to its result
before the next one starts. What runs in succession on a store is therefore among what clients that share it
may do.

A client that has one program behind another plays the first one out and then the second
(`PlaysOut.bind_inv`). Clients play out under other names as under their own, while those that are not among
them stand still (`System.after_rename`, `program_after_rename`). Both together turn succession into sharing:
**a client and then others play out as clients that share the store** (`PlaysOut.hand_over`).

On a host a program has the store to itself, but for the clean-ups during its pauses. It plays out as a
single client (`Host.run_playsOut`).
-/

namespace WatchedStore

theorem Program.bind_assoc {τ α β γ : Type} (p : Program τ α) (f : α → Program τ β) (g : β → Program τ γ) :
    (p.bind f).bind g = p.bind fun a => (f a).bind g := by
  induction p with
  | done a => rfl
  | call c next ih => exact congrArg (Program.call c) (funext ih)
  | report e next ih => exact congrArg (Program.report e) ih
  | pause d next ih => exact congrArg (Program.pause d) ih

namespace Memory

variable {ι κ α β : Type} [DecidableEq ι] [DecidableEq κ] {key : String} {now t t' t₁ : Instant}
  {s s' s₁ : Store}

/-- **Clients that come to their results** among others who leave a key alone, and the store that there is
then. -/
structure PlaysOut (key : String) (t : Instant) (sys : System ι α) (schedule : List (Instant × Turn ι))
    (t' : Instant) (store : Store) (results : ι → α) : Prop where
  ordered : Ordered t schedule t'
  spared : sys.OthersSpare key schedule
  left : (sys.after schedule).store = store
  done : ∀ i, (sys.after schedule).program i = .done (results i)

theorem Ordered.earlier {steps : List (Instant × β)} (h : Ordered t₁ steps t') (hle : t ≤ t₁) :
    Ordered t steps t' := by
  cases steps with
  | nil => exact Nat.le_trans hle h
  | cons step rest => exact ⟨Nat.le_trans hle h.1, h.2⟩

theorem Ordered.append {pre post : List (Instant × β)} (hpre : Ordered t pre t₁)
    (hpost : Ordered t₁ post t') : Ordered t (pre ++ post) t' := by
  induction pre generalizing t with
  | nil => exact hpost.earlier hpre
  | cons step rest ih => exact ⟨hpre.1, ih hpre.2⟩

namespace PlaysOut

/-! ## Step by step -/

section Steps

variable {sys : System ι α} {schedule rest : List (Instant × Turn ι)} {results : ι → α}

theorem course (h : PlaysOut key t sys schedule t' s' results) (i : ι) :
    Course t' s' (.done (results i)) t sys.store (sys.program i) (sys.visits i schedule) := by
  have hcourse := sys.course i h.ordered
  rwa [h.done, h.left] at hcourse

/-- Nothing need happen at first. -/
theorem earlier (h : PlaysOut key t₁ sys schedule t' s' results) (hle : t ≤ t₁) :
    PlaysOut key t sys schedule t' s' results :=
  ⟨h.ordered.earlier hle, h.spared, h.left, h.done⟩

theorem client_iff {i : ι} :
    PlaysOut key t sys ((now, .client i) :: rest) t' s' results ↔
      t ≤ now ∧ PlaysOut key now (sys.turn now (.client i)) rest t' s' results :=
  ⟨fun h => ⟨h.ordered.1, h.ordered.2, h.spared, h.left, h.done⟩,
    fun ⟨hle, h⟩ => ⟨⟨hle, h.ordered⟩, h.spared, h.left, h.done⟩⟩

theorem other_iff {d : Deed} :
    PlaysOut key t sys ((now, .other d) :: rest) t' s' results ↔
      t ≤ now ∧ (sys.store.perform now d).state.live now key = sys.store.state.live now key ∧
        PlaysOut key now (sys.turn now (.other d)) rest t' s' results :=
  ⟨fun h => ⟨h.ordered.1, h.spared.1, h.ordered.2, h.spared.2, h.left, h.done⟩,
    fun ⟨hle, hspare, h⟩ => ⟨⟨hle, h.ordered⟩, ⟨hspare, h.spared⟩, h.left, h.done⟩⟩

end Steps

/-! ## A program in parts -/

variable {p : Program Transaction α} {schedule : List (Instant × Turn Unit)}

/-- **A program with another one behind it** plays out, and then the other one does from there on. -/
theorem bind_inv {k : α → Program Transaction β} {r : β}
    (h : PlaysOut key t ⟨s, fun _ => p.bind k⟩ schedule t' s' fun _ => r) :
    ∃ (a : α) (pre post : List (Instant × Turn Unit)) (t₁ : Instant) (s₁ : Store),
      PlaysOut key t ⟨s, fun _ => p⟩ pre t₁ s₁ (fun _ => a) ∧
      PlaysOut key t₁ ⟨s₁, fun _ => k a⟩ post t' s' fun _ => r := by
  induction schedule generalizing t s p with
  | nil =>
    cases p with
    | done a => exact ⟨a, [], [], t, s, ⟨Nat.le_refl t, trivial, rfl, fun _ => rfl⟩, h⟩
    | _ => cases h.done ()
  | cons step rest ih =>
    obtain ⟨at₁, who⟩ := step
    cases who with
    | other d =>
      obtain ⟨hle, hspare, hrest⟩ := other_iff.mp h
      obtain ⟨a, pre, post, t₁, s₁, hpre, hpost⟩ := ih hrest
      exact ⟨a, (at₁, .other d) :: pre, post, t₁, s₁, other_iff.mpr ⟨hle, hspare, hpre⟩, hpost⟩
    | client i =>
      cases p with
      | done a => exact ⟨a, [], _, t, s, ⟨Nat.le_refl t, trivial, rfl, fun _ => rfl⟩, h⟩
      | _ =>
        obtain ⟨hle, hrest⟩ := client_iff.mp h
        obtain ⟨a, pre, post, t₁, s₁, hpre, hpost⟩ := ih hrest
        exact ⟨a, (at₁, .client ()) :: pre, post, t₁, s₁, client_iff.mpr ⟨hle, hpre⟩, hpost⟩

/-- A client that is done stays so. -/
theorem done_inv {r r' : α} (h : PlaysOut key t ⟨s, fun _ => .done r⟩ schedule t' s' fun _ => r') :
    r' = r := by
  cases (h.course ()).done_inv.2
  rfl

/-- Without a client that is done others do the same. -/
theorem vacate {r r' : α} (h : PlaysOut key t ⟨s, fun _ => .done r⟩ schedule t' s' fun _ => r')
    (programs : Fin 0 → Program Transaction β) (results : Fin 0 → β) :
    ∃ others, PlaysOut key t ⟨s, programs⟩ others t' s' results := by
  induction schedule generalizing t s with
  | nil => exact ⟨[], h.ordered, trivial, h.left, fun i => i.elim0⟩
  | cons step rest ih =>
    obtain ⟨at₁, who⟩ := step
    cases who with
    | other d =>
      obtain ⟨hle, hspare, hrest⟩ := other_iff.mp h
      obtain ⟨others, hplays⟩ := ih hrest
      exact ⟨(at₁, .other d) :: others, other_iff.mpr ⟨hle, hspare, hplays⟩⟩
    | client i =>
      obtain ⟨hle, hrest⟩ := client_iff.mp h
      obtain ⟨others, hplays⟩ := ih hrest
      exact ⟨others, hplays.earlier hle⟩

end PlaysOut

/-! ## Clients under other names -/

/-- A turn, with another name for the client. -/
def Turn.rename (e : ι → κ) : Turn ι → Turn κ
  | .client i => .client (e i)
  | .other d => .other d

/-- A schedule, with other names for its clients. -/
def renamed (e : ι → κ) (schedule : List (Instant × Turn ι)) : List (Instant × Turn κ) :=
  schedule.map fun step => (step.1, step.2.rename e)

/-- The part of a system that clients are who have other names in it. -/
def System.pull (e : ι → κ) (sys : System κ α) : System ι α := ⟨sys.store, fun i => sys.program (e i)⟩

omit [DecidableEq ι] [DecidableEq κ] in
theorem ordered_renamed {e : ι → κ} {schedule : List (Instant × Turn ι)} (h : Ordered t schedule t') :
    Ordered t (renamed e schedule) t' := by
  induction schedule generalizing t with
  | nil => exact h
  | cons step rest ih => exact ⟨h.1, ih h.2⟩

namespace System

variable {e : ι → κ} {schedule : List (Instant × Turn ι)}

theorem turn_rename (he : Function.Injective e) (sys : System κ α) (now : Instant) (who : Turn ι) :
    (sys.turn now (who.rename e)).pull e = (sys.pull e).turn now who := by
  cases who with
  | other d => rfl
  | client i =>
    refine congrArg (System.mk _) (funext fun j => ?_)
    by_cases hj : j = i
    · subst hj
      simp only [Turn.rename, turn, pull, if_true]
    · simp only [Turn.rename, turn, pull, if_neg hj, if_neg (he.ne hj)]

/-- **Under other names clients do what they do under their own.** -/
theorem after_rename (he : Function.Injective e) (sys : System κ α) :
    (sys.after (renamed e schedule)).pull e = (sys.pull e).after schedule := by
  induction schedule generalizing sys with
  | nil => rfl
  | cons step rest ih =>
    obtain ⟨at₁, who⟩ := step
    exact (ih (sys.turn at₁ (who.rename e))).trans (by rw [turn_rename he]; rfl)

theorem othersSpare_rename (he : Function.Injective e) {sys : System κ α}
    (h : (sys.pull e).OthersSpare key schedule) : sys.OthersSpare key (renamed e schedule) := by
  induction schedule generalizing sys with
  | nil => trivial
  | cons step rest ih =>
    obtain ⟨at₁, who⟩ := step
    have hpull := turn_rename he sys at₁ who
    cases who with
    | client i => exact ih (hpull ▸ h)
    | other d => exact ⟨h.1, ih (hpull ▸ h.2)⟩

omit [DecidableEq ι] in
/-- Clients that are not among them stand still. -/
theorem program_after_rename (sys : System κ α) {j : κ} (hj : ∀ i, e i ≠ j) :
    (sys.after (renamed e schedule)).program j = sys.program j := by
  induction schedule generalizing sys with
  | nil => rfl
  | cons step rest ih =>
    obtain ⟨at₁, who⟩ := step
    refine (ih (sys.turn at₁ (who.rename e))).trans ?_
    cases who with
    | client i => exact program_turn_other sys j at₁ (hj i)
    | other d => rfl

end System

/-- **A client and then others play out as clients that share the store.** -/
theorem PlaysOut.hand_over {n : Nat} {p : Program Transaction α} {programs : Fin n → Program Transaction α}
    {a : α} {results : Fin n → α} {pre : List (Instant × Turn Unit)} {post : List (Instant × Turn (Fin n))}
    (hfirst : PlaysOut key t ⟨s, fun _ => p⟩ pre t₁ s₁ fun _ => a)
    (hothers : PlaysOut key t₁ ⟨s₁, programs⟩ post t' s' results) :
    PlaysOut key t ⟨s, Fin.cons p programs⟩ (renamed (fun _ => 0) pre ++ renamed Fin.succ post) t' s'
      (Fin.cons a results) := by
  have hzero : Function.Injective fun _ : Unit => (0 : Fin (n + 1)) := fun _ _ _ => rfl
  have hsucc : Function.Injective (Fin.succ (n := n)) := Fin.succ_injective n
  let start : System (Fin (n + 1)) α := ⟨s, Fin.cons p programs⟩
  let mid := start.after (renamed (fun _ => 0) pre)
  have hmid : mid.pull (fun _ => 0) = System.after ⟨s, fun _ => p⟩ pre := System.after_rename hzero start
  have hstore : mid.store = s₁ := (congrArg System.store hmid).trans hfirst.left
  have hpulled : mid.pull Fin.succ = ⟨s₁, programs⟩ := by
    have hwaiting : ∀ i : Fin n, mid.program i.succ = programs i := fun i =>
      System.program_after_rename start fun _ => (Fin.succ_ne_zero i).symm
    rw [System.pull, hstore, funext hwaiting]
  have hend : (mid.after (renamed Fin.succ post)).pull Fin.succ = System.after ⟨s₁, programs⟩ post := by
    rw [System.after_rename hsucc, hpulled]
  refine ⟨(ordered_renamed hfirst.ordered).append (ordered_renamed hothers.ordered),
    othersSpare_append.mpr ⟨System.othersSpare_rename hzero hfirst.spared, System.othersSpare_rename hsucc ?_⟩,
    ?_, ?_⟩
  · exact hpulled ▸ hothers.spared
  · rw [System.after_append]
    exact (congrArg System.store hend).trans hothers.left
  · rw [System.after_append]
    refine Fin.cases ?_ fun i => ?_
    · refine (System.program_after_rename mid fun i => Fin.succ_ne_zero i).trans ?_
      exact (congrFun (congrArg System.program hmid) ()).trans (hfirst.done ())
    · exact (congrFun (congrArg System.program hend) i).trans (hothers.done i)

/-! ## A program on a host -/

namespace Host

theorem cleanUp_eq (h : Host) :
    h.cleanUp.now = h.now ∧ h.cleanUp.store = h.store.perform h.now .cleanUp := by
  unfold cleanUp Store.perform
  split
  · exact ⟨rfl, rfl⟩
  · dsimp only
    split <;> exact ⟨rfl, rfl⟩

/-- A pause lets no time pass by the clock, and the store may be cleaned up in it. -/
theorem wait_eq (d : Duration) (h : Host) :
    (h.wait d).now = h.now ∧
      ((h.wait d).store = h.store ∨ (h.wait d).store = h.store.perform h.now .cleanUp) := by
  unfold wait timerTo
  dsimp only
  split
  · exact ⟨rfl, .inl rfl⟩
  · split
    · obtain ⟨hnow, hstore⟩ := cleanUp_eq { h with
        timer := roundUp (h.timer + d.nanoseconds)
        cleanups := some ⟨_, _⟩ }
      exact ⟨hnow, .inr hstore⟩
    · exact ⟨rfl, .inl rfl⟩

/-- **A program on a host plays out as a single client**: others only clean up. -/
theorem run_playsOut (key : String) (p : Program Transaction α) (h : Host) :
    ∃ schedule : List (Instant × Turn Unit),
      PlaysOut key h.now ⟨h.store, fun _ => p⟩ schedule (p.run backend h).2.now (p.run backend h).2.store
        fun _ => (p.run backend h).1 := by
  induction p generalizing h with
  | done r => exact ⟨[], Nat.le_refl h.now, trivial, rfl, fun _ => rfl⟩
  | call c next ih =>
    obtain ⟨rest, hrest⟩ := ih (h.store.call h.now c).1 { h with store := (h.store.call h.now c).2 }
    exact ⟨(h.now, .client ()) :: rest, PlaysOut.client_iff.mpr ⟨Nat.le_refl h.now, hrest⟩⟩
  | report e next ih =>
    obtain ⟨rest, hrest⟩ := ih (h.note e)
    exact ⟨(h.now, .client ()) :: rest, PlaysOut.client_iff.mpr ⟨Nat.le_refl h.now, hrest⟩⟩
  | pause d next ih =>
    obtain ⟨rest, hrest⟩ := ih (h.wait d)
    obtain ⟨hnow, hstore⟩ := wait_eq d h
    rw [hnow] at hrest
    rcases hstore with hsame | hcleaned
    · rw [hsame] at hrest
      exact ⟨(h.now, .client ()) :: rest, PlaysOut.client_iff.mpr ⟨Nat.le_refl h.now, hrest⟩⟩
    · rw [hcleaned] at hrest
      exact ⟨(h.now, .client ()) :: (h.now, .other .cleanUp) :: rest,
        PlaysOut.client_iff.mpr ⟨Nat.le_refl h.now, PlaysOut.other_iff.mpr ⟨Nat.le_refl h.now,
          congrFun (live_cleanUp h.store h.now) key, hrest⟩⟩⟩

end Host

end Memory

end WatchedStore
