import WatchedStore.Proofs.Clients.Course

/-!
# Programs that are served well

What a program comes to depends on how its calls are answered, and so on the stores that they meet.
`Achieves good R p` says that a program comes to a result of kind `R` if every store that it meets is good.

**The law** (`Achieves.of_course`): so it does among any deeds of others. Nothing is said of the program when
a store is not good, and nothing has to be kept by its calls.
-/

namespace WatchedStore.Memory

/-- **A program whose result is of some kind, if the stores that its calls meet are good.** -/
inductive Achieves (good : Store → Prop) (R : α → Prop) : Program Transaction α → Prop
  | done {r : α} (h : R r) : Achieves good R (.done r)
  | call {c : Call Transaction} {next : Except Error c.Answer → Program Transaction α}
    (h : ∀ now s, good s → Achieves good R (next (s.call now c).1)) : Achieves good R (.call c next)
  | report {e : Event} {next : Program Transaction α} (h : Achieves good R next) :
    Achieves good R (.report e next)
  | pause {d : Duration} {next : Program Transaction α} (h : Achieves good R next) :
    Achieves good R (.pause d next)

variable {good : Store → Prop} {R : α → Prop}

theorem Achieves.bind {R' : β → Prop} {p : Program Transaction α} {k : α → Program Transaction β}
    (h : Achieves good R p) (hk : ∀ r, R r → Achieves good R' (k r)) : Achieves good R' (p.bind k) := by
  induction h with
  | done hr => exact hk _ hr
  | call _ ih => exact .call ih
  | report _ ih => exact .report ih
  | pause _ ih => exact .pause ih

/-- **A program that was served well has the result that it then comes to.** -/
theorem Achieves.of_course {t t' : Instant} {s s' : Store} {p : Program Transaction α} {r : α}
    {visits : List Visit} (h : Achieves good R p) (hc : Course t' s' (.done r) t s p visits)
    (hgood : ∀ v ∈ visits, good v.store) : R r := by
  have hfollows := hc.follows
  clear hc
  generalize hend : Program.done r = p' at hfollows
  induction hfollows with
  | stop =>
    subst hend
    cases h with
    | done hr => exact hr
  | @call v next rest p' _ ih =>
    obtain ⟨hv, hrest⟩ := List.forall_mem_cons.mp hgood
    cases h with
    | call h => exact ih (h v.now v.store hv) hrest hend
  | report _ ih =>
    cases h with
    | report h => exact ih h hgood hend
  | pause _ ih =>
    cases h with
    | pause h => exact ih h hgood hend

/-- What happened to a store before a call is behind it in the end. -/
theorem Course.reaches_of_mem {t t' : Instant} {s s' : Store} {p p' : Program Transaction α}
    {visits : List Visit} (h : Course t' s' p' t s p visits) :
    ∀ v ∈ visits, Reaches v.now v.store t' s' := by
  induction h with
  | stop => exact fun _ hv => absurd hv List.not_mem_nil
  | wait _ _ ih => exact ih
  | other _ _ ih => exact ih
  | @call t s c next visits h ih =>
    exact List.forall_mem_cons.mpr ⟨(Reaches.refl.deed (.call c)).trans h.reaches, ih⟩
  | report _ ih => exact ih
  | pause _ ih => exact ih

end WatchedStore.Memory
