import WatchedStore.Json.Typed
import WatchedStore.Proofs.Json.Reading

/-!
# What readers yield

Some things hold of whatever a reader gives, on any text at all: a span is one of whole milliseconds, the
values of a map are what its values are read as. A reader is taken apart for this as it is put together, without a look at
the text.
-/

namespace WatchedStore.Json

open Reader

/-- **All results of a reader** are of this kind. -/
def Yields (r : Reader α) (P : α → Prop) : Prop :=
  ∀ ⦃text a rest⦄, r text = (.ok a, rest) → P a

section Yields

variable {r : Reader α} {P : α → Prop} {Q : β → Prop}

theorem yields_pure {a : α} (h : P a) : Yields (pure a) P := by
  intro text b rest hb
  cases hb
  exact h

theorem yields_stopAhead (e : Fault) : Yields (stopAhead e) P := by
  intro text a rest h
  cases h

theorem yields_stopUnplaced (e : Fault) : Yields (stopUnplaced e) P := by
  intro text a rest h
  cases h

theorem Yields.bind (h : Yields r P) {f : α → Reader β} (hf : ∀ a, P a → Yields (f a) Q) :
    Yields (r >>= f) Q := by
  intro text b rest hb
  obtain ⟨a, mid, ha, hb⟩ := bind_eq_ok_iff.mp hb
  exact hf a (h ha) hb

/-- Where nothing has to be known about the first result. -/
theorem yields_bind {f : α → Reader β} (hf : ∀ a, Yields (f a) Q) : Yields (r >>= f) Q := by
  intro text b rest hb
  obtain ⟨a, mid, -, hb⟩ := bind_eq_ok_iff.mp hb
  exact hf a hb

theorem Yields.map (h : Yields r P) (f : α → β) (hf : ∀ a, P a → Q (f a)) : Yields (f <$> r) Q := by
  intro text b rest hb
  obtain ⟨a, ha, rfl⟩ := map_eq_ok_iff.mp hb
  exact hf a (h ha)

theorem Yields.placing (h : Yields r P) : Yields (Reader.placing r) P := by
  intro text a rest ha
  exact h (placing_eq_ok_iff.mp ha)

theorem Yields.closing (h : Yields r P) (close : Reader Unit) : Yields (Reader.closing r close) P := by
  intro text a rest ha
  unfold Reader.closing at ha
  split at ha
  · rename_i b left hb
    obtain ⟨_, _, -, hdone⟩ := bind_eq_ok_iff.mp ha
    cases hdone
    exact h hb
  · cases ha

/-- A value of a wrong form yields nothing. -/
theorem yields_mismatch (expected : String) : Yields (mismatch expected) P := by
  refine .placing (yields_bind fun b => ?_)
  split
  · exact yields_bind fun _ => yields_bind fun _ => yields_stopUnplaced _
  · exact yields_bind fun _ => yields_bind fun _ => yields_stopUnplaced _
  · exact yields_bind fun _ => yields_bind fun _ => yields_stopUnplaced _
  · exact yields_bind fun _ => yields_bind fun _ => yields_stopUnplaced _
  · exact yields_bind fun _ => yields_bind fun _ => yields_stopUnplaced _
  · exact yields_stopUnplaced _
  · exact yields_stopUnplaced _
  · split
    · exact yields_bind fun _ => yields_stopUnplaced _
    · exact yields_stopAhead _
  · exact yields_stopAhead _

/-- Any result is one. -/
theorem yields_any (r : Reader α) : Yields r fun _ => True := fun _ _ _ _ => trivial

theorem members_yields (hr : Yields r P) (fuel : Nat) (first : Bool) :
    Yields (members r fuel first) fun as => ∀ m ∈ as, P m.2 := by
  induction fuel generalizing first with
  | zero => exact yields_stopAhead _
  | succ fuel ih =>
    refine yields_bind fun name => ?_
    cases name with
    | none => exact yields_pure fun _ h => (nomatch h)
    | some name =>
      refine yields_bind fun _ => hr.bind fun a ha => (ih false).bind fun as has => ?_
      exact yields_pure (List.forall_mem_cons.mpr ⟨ha, has⟩)

theorem yields_map (hr : Yields r P) : Yields (Reader.map r) fun as => ∀ m ∈ as, P m.2 := by
  refine yields_bind fun b => ?_
  split
  · refine yields_bind fun _ => Yields.placing (Yields.closing ?_ closeObject)
    exact yields_bind fun left => members_yields hr _ true
  · exact yields_mismatch _

/-- What is read from whole texts. -/
theorem Yields.run (h : Yields r P) {text : Bytes} {a : α} (ha : r.run text = .ok a) : P a := by
  obtain ⟨rest, hr, -⟩ := run_eq_ok ha
  exact h hr

end Yields

end WatchedStore.Json
