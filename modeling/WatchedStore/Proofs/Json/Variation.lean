import WatchedStore.Proofs.Json.Record
import WatchedStore.Proofs.Json.Write

/-!
# Documents that say the same

A document of settings may leave out what is standard anyway, and may hold its members in any order. The
step from one such document to the next (`Varies`) is made beside the document of the standard settings,
so that the members of inner objects are compared with those of the same object there.

A function on documents that gives the standard document its standard value does not tell such documents
apart (`Stable`) if this holds of the values of its members: `said_varies` is the step from them to the
object.
-/

namespace WatchedStore.Json

variable {base d d' : Document} {ms ms' std : List (String × Document)} {name : String}

/-- **One document becomes another that says the same**, beside a standard one: a member with its standard
value is left out, the members change places, or the value of a member varies likewise. -/
inductive Varies : Document → Document → Document → Prop
  | leave {std before after : List (String × Document)} {name : String} {d : Document}
      (h : (name, d) ∈ std) :
    Varies (.object std) (.object (before ++ (name, d) :: after)) (.object (before ++ after))
  | reorder {base : Document} {ms ms' : List (String × Document)} (h : ms.Perm ms')
      (hnames : (ms.map Prod.fst).Nodup) :
    Varies base (.object ms) (.object ms')
  | inside {std before after : List (String × Document)} {name : String} {base d d' : Document}
      (hbase : (name, base) ∈ std) (h : Varies base d d') :
    Varies (.object std) (.object (before ++ (name, d) :: after))
      (.object (before ++ (name, d') :: after))

/-- Nothing but objects varies. -/
theorem Varies.objects (h : Varies base d d') : ∃ ms ms', d = .object ms ∧ d' = .object ms' := by
  cases h with
  | leave => exact ⟨_, _, rfl, rfl⟩
  | reorder => exact ⟨_, _, rfl, rfl⟩
  | inside => exact ⟨_, _, rfl, rfl⟩

/-- What is plain stays so. -/
theorem Varies.plain (h : Varies base d d') (hd : Plain d) : Plain d' := by
  induction h with
  | @leave std before after name d hmem =>
    cases hd with
    | object hall =>
      rw [List.forall_mem_append, List.forall_mem_cons] at hall
      exact .object (List.forall_mem_append.mpr ⟨hall.1, hall.2.2⟩)
  | reorder hperm =>
    cases hd with
    | object hall => exact .object fun m hm => hall m (hperm.mem_iff.mpr hm)
  | @inside std before after name base d d' hmem hinside ih =>
    cases hd with
    | object hall =>
      rw [List.forall_mem_append, List.forall_mem_cons] at hall
      refine .object (List.forall_mem_append.mpr ⟨hall.1, List.forall_mem_cons.mpr ?_⟩)
      exact ⟨ih hall.2.1, hall.2.2⟩

/-- **A function that does not tell documents apart** that say the same beside this one. -/
def Stable (value? : Document → Option α) (base : Document) : Prop :=
  ∀ ⦃d d' a⦄, Varies base d d' → value? d = some a → value? d' = some a

variable {value? : Document → Option α} {standard a : α}

/-- What no object is does not vary. -/
theorem stable_scalar (h : ∀ ms, value? (.object ms) = none) (base : Document) : Stable value? base := by
  intro d d' a hvaries ha
  obtain ⟨ms, ms', rfl, rfl⟩ := hvaries.objects
  rw [h] at ha
  cases ha

theorem Stable.map (h : Stable value? base) (f : α → β) : Stable (fun d => (value? d).map f) base := by
  intro d d' b hvaries hb
  obtain ⟨a, ha, rfl⟩ := Option.map_eq_some_iff.mp hb
  exact Option.map_eq_some_iff.mpr ⟨a, h hvaries ha, rfl⟩

/-! ## Members -/

variable {before after : List (String × Document)}

/-- A member of another name says nothing. -/
theorem said_of_ne {other : String} (h : other ≠ name) (d : Document) :
    said (before ++ (other, d) :: after) name value? standard =
      said (before ++ after) name value? standard := by
  rw [said, named_append, named_cons_ne h, ← named_append]
  rfl

/-- A member that says something of its name is the only one. -/
theorem said_member_iff : said (before ++ (name, d) :: after) name value? standard = some a ↔
    named before name = [] ∧ named after name = [] ∧ value? d = some a := by
  constructor
  · intro h
    unfold said at h
    split at h
    · rename_i hnone
      simp [named_append, named_cons_self] at hnone
    · rename_i other e hone
      obtain ⟨hbefore, hafter, heq⟩ := named_eq_singleton hone
      cases heq
      exact ⟨hbefore, hafter, h⟩
    · cases h
  · rintro ⟨hbefore, hafter, h⟩
    rw [said, named_append, named_cons_self, hbefore, hafter]
    exact h

/-- Where the members stand does not matter. -/
theorem said_perm (hperm : ms.Perm ms') (h : said ms name value? standard = some a) :
    said ms' name value? standard = some a := by
  have hnamed : (named ms name).Perm (named ms' name) := hperm.filter _
  unfold said at h ⊢
  split at h
  · rename_i hnone
    rw [hnone] at hnamed
    rw [hnamed.nil_eq.symm]
    exact h
  · rename_i hone
    rw [hone] at hnamed
    rw [hnamed.singleton_eq.symm]
    exact h
  · cases h

/-- **What an object says about a name does not vary**, if what the member of this name says does not, and
the standard member of this name says what holds by default. -/
theorem said_varies (hstd : named std name = [(name, base)]) (hbase : value? base = some standard)
    (hstable : Stable value? base) (hvaries : Varies (.object std) (.object ms) (.object ms'))
    (h : said ms name value? standard = some a) : said ms' name value? standard = some a := by
  have hthe : ∀ {d}, (name, d) ∈ std → d = base := by
    intro d hmem
    have hnamed : (name, d) ∈ named std name := List.mem_filter.mpr ⟨hmem, beq_self_eq_true name⟩
    rw [hstd, List.mem_singleton] at hnamed
    exact (Prod.mk.inj hnamed).2
  cases hvaries with
  | @leave _ before after other d hmem =>
    by_cases hother : other = name
    · subst hother
      obtain rfl := hthe hmem
      obtain ⟨hbefore, hafter, hvalue⟩ := said_member_iff.mp h
      rw [said, named_append, hbefore, hafter]
      exact hbase.symm.trans hvalue
    · rwa [said_of_ne hother] at h
  | reorder hperm => exact said_perm hperm h
  | @inside _ before after other inner d d' hmem hinside =>
    by_cases hother : other = name
    · subst hother
      obtain rfl := hthe hmem
      obtain ⟨hbefore, hafter, hvalue⟩ := said_member_iff.mp h
      exact said_member_iff.mpr ⟨hbefore, hafter, hstable hinside hvalue⟩
    · rw [said_of_ne hother] at h ⊢
      exact h

/-- What an object says about a name does not vary, if it is no object. -/
theorem said_varies_scalar (hstd : named std name = [(name, base)]) (hbase : value? base = some standard)
    (hscalar : ∀ ms, value? (.object ms) = none) (hvaries : Varies (.object std) (.object ms) (.object ms'))
    (h : said ms name value? standard = some a) : said ms' name value? standard = some a :=
  said_varies hstd hbase (stable_scalar hscalar base) hvaries h

/-! ## Values by name -/

namespace Document

/-- Members in another order have their values in another order. -/
theorem entries?_perm (h : ms.Perm ms') {as : List (String × α)}
    (has : (object ms).entries? value? = some as) :
    ∃ as', (object ms').entries? value? = some as' ∧ as.Perm as' := by
  induction h generalizing as with
  | nil => exact ⟨as, has, .refl as⟩
  | cons m _ ih =>
    obtain ⟨a, ha, rest, hrest, rfl⟩ := entries?_cons.mp has
    obtain ⟨rest', hrest', hperm⟩ := ih hrest
    exact ⟨_, entries?_cons.mpr ⟨a, ha, rest', hrest', rfl⟩, hperm.cons _⟩
  | swap m n ms =>
    obtain ⟨a, ha, _, hmore, rfl⟩ := entries?_cons.mp has
    obtain ⟨b, hb, rest, hrest, rfl⟩ := entries?_cons.mp hmore
    refine ⟨_, entries?_cons.mpr ⟨b, hb, _, entries?_cons.mpr ⟨a, ha, rest, hrest, rfl⟩, rfl⟩, ?_⟩
    exact .swap ..
  | trans _ _ ih ih' =>
    obtain ⟨as', has', hperm⟩ := ih has
    obtain ⟨as'', has'', hperm'⟩ := ih' has'
    exact ⟨as'', has'', hperm.trans hperm'⟩

/-- Values keep the names of their members. -/
theorem entries?_names {as : List (String × α)} (h : (object ms).entries? value? = some as) :
    as.map Prod.fst = ms.map Prod.fst := by
  induction ms generalizing as with
  | nil =>
    cases h
    rfl
  | cons m ms ih =>
    obtain ⟨a, -, rest, hrest, rfl⟩ := entries?_cons.mp h
    exact congrArg (m.1 :: ·) (ih hrest)

end Document

end WatchedStore.Json
