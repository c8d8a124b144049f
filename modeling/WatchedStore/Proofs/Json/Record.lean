import Mathlib.Data.List.Forall2
import WatchedStore.Proofs.Json.Form
import WatchedStore.Proofs.Json.Yields

/-!
# Records

Two laws about reading a record, whatever its fields are.

**From an object** (`Record.read_object`): if each field is settled by the object, by one member of its name
or by its own default where there is none, then the record is what its fields make of a blank one.
The order of the members does not matter, and neither do members that no field is named after.

**From any text** (`Record.read_yields`): what all fields keep holds of every record that is read, be it from
an object or from an array.
-/

namespace WatchedStore.Json

open Reader

variable {σ : Type} {text rest : Bytes} {ms : List (String × Document)}

/-! ## Members -/

/-- The members of an object that have a name. -/
def named (ms : List (String × Document)) (name : String) : List (String × Document) :=
  ms.filter (·.1 == name)

section Members

variable {before after : List (String × Document)} {name : String} {d : Document}

theorem named_cons_self (name : String) (d : Document) (ms : List (String × Document)) :
    named ((name, d) :: ms) name = (name, d) :: named ms name :=
  List.filter_cons_of_pos (beq_self_eq_true name)

theorem named_cons_ne {other : String} (h : other ≠ name) (d : Document)
    (ms : List (String × Document)) : named ((other, d) :: ms) name = named ms name :=
  List.filter_cons_of_neg (by simpa using h)

theorem named_append (before after : List (String × Document)) (name : String) :
    named (before ++ after) name = named before name ++ named after name :=
  List.filter_append ..

theorem named_eq_nil (h : name ∉ ms.map Prod.fst) : named ms name = [] := by
  refine List.filter_eq_nil_iff.mpr fun m hm heq => h ?_
  exact List.mem_map.mpr ⟨m, hm, eq_of_beq heq⟩

/-- A member that is the only one of its name. -/
theorem named_eq_singleton {m : String × Document}
    (h : named (before ++ (name, d) :: after) name = [m]) :
    named before name = [] ∧ named after name = [] ∧ m = (name, d) := by
  rw [named_append, named_cons_self] at h
  cases hbefore : named before name with
  | nil =>
    rw [hbefore, List.nil_append, List.cons.injEq] at h
    exact ⟨rfl, h.2, h.1.symm⟩
  | cons =>
    rw [hbefore] at h
    simp at h

end Members

/-- **What the members of an object say about a name**: the default if none has this name, and nothing if
several have it or the only one has another form of value. -/
def said (ms : List (String × Document)) (name : String) (value? : Document → Option α) (default : α) :
    Option α :=
  match named ms name with
  | [] => some default
  | [(_, d)] => value? d
  | _ => none

/-- Whether members have a name at most once, and then with a value of a form. -/
def fits (ms : List (String × Document)) (name : String) (form : Document → Bool) : Bool :=
  match named ms name with
  | [] => true
  | [(_, d)] => form d
  | _ => false

/-- Members that fit say something. -/
theorem exists_said {name : String} {form : Document → Bool} (h : fits ms name form = true)
    {value? : Document → Option α} (hform : ∀ d, form d = true → ∃ a, value? d = some a) (default : α) :
    ∃ a, said ms name value? default = some a := by
  unfold fits at h
  unfold said
  split at h
  · exact ⟨default, rfl⟩
  · exact hform _ h
  · cases h

/-! ## Fields -/

namespace Field

/-- **A field is settled** by the members of an object: it is read from the only one of its name, or left
out. -/
def Settles (f : Field σ) (ms : List (String × Document)) (change : σ → σ) : Prop :=
  match named ms f.name with
  | [] => f.absent = some change
  | [(_, d)] => ∀ ⦃text rest⦄, Spells text (.value d) rest → f.read text = (.ok change, rest)
  | _ => False

variable {f : Field σ} {change : σ → σ}

/-- A field with a default is settled by what the object says. -/
theorem settles_of_said {r : Reader α} {value? : Document → Option α} (hr : Carries r value?)
    {name : String} {default a : α} (h : said ms name value? default = some a) (set : α → σ → σ) :
    (Field.of name r set (some default)).Settles ms (set a) := by
  unfold said at h
  show match named ms name with
    | [] => some (set default) = some (set a)
    | [(_, d)] => ∀ ⦃text rest⦄, Spells text (.value d) rest → (set <$> r) text = (.ok (set a), rest)
    | _ => False
  split at h
  · cases h
    rfl
  · intro text rest hspells
    exact map_eq_ok_iff.mpr ⟨a, hr hspells h, rfl⟩
  · cases h

/-- A field without a member is left out. -/
theorem Settles.absent (h : f.Settles ms change) (hnot : f.name ∉ ms.map Prod.fst) :
    f.absent = some change := by
  rw [Settles, named_eq_nil hnot] at h
  exact h

/-- A field with a member has no other one, and is read from it. -/
theorem Settles.member {before after : List (String × Document)} {d : Document}
    (h : f.Settles (before ++ (f.name, d) :: after) change) :
    f.name ∉ before.map Prod.fst ∧
      ∀ ⦃text rest⦄, Spells text (.value d) rest → f.read text = (.ok change, rest) := by
  unfold Settles at h
  split at h
  · rename_i hnone
    simp [named_append, named_cons_self] at hnone
  · rename_i other e hone
    obtain ⟨hbefore, -, heq⟩ := named_eq_singleton hone
    cases heq
    refine ⟨fun hmem => ?_, h⟩
    obtain ⟨m, hm, hname⟩ := List.mem_map.mp hmem
    exact List.filter_eq_nil_iff.mp hbefore m hm (beq_iff_eq.mpr hname)
  · exact h.elim

end Field

/-! ## From an object -/

namespace Record

variable {r : Record σ} {change : String → σ → σ}

/-- The record that all fields make of a blank one. -/
theorem build_eq {given : List (String × (σ → σ))}
    (h : ∀ f ∈ r.fields, (given.lookup f.name).or f.absent = some (change f.name)) :
    r.build given = .ok (r.fields.foldl (fun s f => change f.name s) r.blank) := by
  unfold build
  generalize r.blank = s
  generalize r.fields = fields at h ⊢
  induction fields generalizing s with
  | nil => rfl
  | cons f more ih =>
    obtain ⟨hf, hmore⟩ := List.forall_mem_cons.mp h
    rw [List.foldlM_cons, hf, List.foldl_cons]
    exact ih (change f.name s) hmore

/-- **What the members so far were about**: the changes that were read are those of the fields that they
name. -/
def Gives (r : Record σ) (change : String → σ → σ) (before : List (String × Document))
    (given : List (String × (σ → σ))) : Prop :=
  ∀ f ∈ r.fields, given.lookup f.name =
    if f.name ∈ before.map Prod.fst then some (change f.name) else none

section Gives

variable {before : List (String × Document)} {given : List (String × (σ → σ))} {f : Field σ} {name : String}
  {d : Document}

theorem mem_names_iff {other : String} (h : other ≠ name) :
    other ∈ (before ++ [(name, d)]).map Prod.fst ↔ other ∈ before.map Prod.fst := by
  simp [h]

/-- A member that no field is named after gives nothing. -/
theorem Gives.unknown (h : Gives r change before given) (hname : ∀ f ∈ r.fields, f.name ≠ name) :
    Gives r change (before ++ [(name, d)]) given := by
  intro f hf
  exact (h f hf).trans (if_congr (mem_names_iff (hname f hf)).symm rfl rfl)

/-- A field's member gives its change. -/
theorem Gives.read (h : Gives r change before given) (f : Field σ) :
    Gives r change (before ++ [(f.name, d)]) ((f.name, change f.name) :: given) := by
  intro g hg
  by_cases heq : g.name = f.name
  · rw [heq, List.lookup_cons_self, if_pos (by simp)]
  · rw [List.lookup_cons, beq_false_of_ne heq]
    exact (h g hg).trans (if_congr (mem_names_iff heq).symm rfl rfl)

/-- All members give the record. -/
theorem Gives.build (h : Gives r change ms given)
    (hfields : ∀ f ∈ r.fields, f.Settles ms (change f.name)) :
    r.build given = .ok (r.fields.foldl (fun s f => change f.name s) r.blank) := by
  refine build_eq fun f hf => ?_
  rw [h f hf]
  split
  · rfl
  · rename_i hnot
    rw [Option.none_or, (hfields f hf).absent hnot]

end Gives

/-- **The members of an object settle the fields one by one.** -/
theorem readMembers_spells (before : List (String × Document)) {given : List (String × (σ → σ))}
    {first : Bool} {fuel : Nat}
    (hfields : ∀ f ∈ r.fields, f.Settles (before ++ ms) (change f.name))
    (hgiven : Gives r change before given) (h : Spells text (.members first ms) rest)
    (hfuel : text.length < fuel) :
    r.readMembers fuel first given text =
      (.ok (r.fields.foldl (fun s f => change f.name s) r.blank), 0x7D :: rest) := by
  obtain ⟨n, rfl⟩ : ∃ n, fuel = n + 1 := ⟨fuel - 1, by omega⟩
  induction ms generalizing text first before given n with
  | nil =>
    cases h with
    | lastMember hws =>
      rw [List.append_nil] at hfields
      rw [readMembers, bind_of_ok (nextName_end hws first rest)]
      dsimp only
      rw [hgiven.build hfields]
      rfl
  | cons m ms ih =>
    cases h with
    | @member sep ws named gap text mid _ _ name d _ hsep hws hname hgap h hrest =>
      have hshorter : text.length < (sep ++ (ws ++ 0x22 :: named)).length := length_lt_member hname
      obtain ⟨hless, -⟩ := skips_part h
      obtain ⟨k, rfl⟩ : ∃ k, n = k + 1 := ⟨n - 1, by omega⟩
      have hsame : before ++ (name, d) :: ms = (before ++ [(name, d)]) ++ ms := by simp
      rw [readMembers, bind_of_ok (nextName_member hsep hws hname)]
      dsimp only
      cases hfind : r.fields.find? (·.name == name) with
      | none =>
        have hothers : ∀ f ∈ r.fields, f.name ≠ name := by
          intro f hf
          simpa using List.find?_eq_none.mp hfind f hf
        dsimp only
        rw [bind_of_ok (colon_run hgap text), bind_of_ok (skipValue_spells h)]
        exact ih _ (hsame ▸ hfields) (hgiven.unknown hothers) hrest k (by omega)
      | some f =>
        have hf : f ∈ r.fields := List.mem_of_find?_eq_some hfind
        obtain rfl : f.name = name := by simpa using List.find?_some hfind
        obtain ⟨hnot, hread⟩ := (hfields f hf).member
        have hnew : given.lookup f.name = none := by rw [hgiven f hf, if_neg hnot]
        dsimp only
        rw [hnew, if_neg (by simp), bind_of_ok (colon_run hgap text), bind_of_ok (hread h)]
        exact ih _ (hsame ▸ hfields) (hgiven.read f) hrest k (by omega)

/-- Changes in the order of differently named fields are changes by name. -/
theorem exists_named {P : Field σ → (σ → σ) → Prop} {fields : List (Field σ)} {changes : List (σ → σ)}
    (h : List.Forall₂ P fields changes) (hnames : (fields.map Field.name).Nodup) :
    ∃ change : String → σ → σ, (∀ f ∈ fields, P f (change f.name)) ∧
      changes = fields.map fun f => change f.name := by
  induction h with
  | nil => exact ⟨fun _ => id, by simp, rfl⟩
  | @cons f c fields changes hf hrest ih =>
    obtain ⟨hnot, hnames⟩ := List.nodup_cons.mp hnames
    obtain ⟨change, hall, hchanges⟩ := ih hnames
    have hothers : ∀ g ∈ fields, g.name ≠ f.name := by
      intro g hg heq
      exact hnot (List.mem_map.mpr ⟨g, hg, heq⟩)
    refine ⟨fun name => if name = f.name then c else change name, ?_, ?_⟩
    · intro g hg
      rcases List.mem_cons.mp hg with rfl | hg
      · simpa using hf
      · simpa [hothers g hg] using hall g hg
    · have hsame : ∀ g ∈ fields, change g.name = if g.name = f.name then c else change g.name :=
        fun g hg => (if_neg (hothers g hg)).symm
      rw [List.map_cons, hchanges]
      simp only [if_pos]
      exact congrArg (c :: ·) (List.map_congr_left hsame)

/-- **A record is read from an object that settles its fields**, each by itself. -/
theorem read_object {changes : List (σ → σ)} (hnames : (r.fields.map Field.name).Nodup)
    (hfields : List.Forall₂ (fun f change => f.Settles ms change) r.fields changes)
    (h : Spells text (.value (.object ms)) rest) :
    r.read text = (.ok (changes.foldl (fun s change => change s) r.blank), rest) := by
  obtain ⟨change, hall, rfl⟩ := exists_named hfields hnames
  cases h with
  | @object ws text rest ms hws h =>
    rw [List.foldl_map]
    refine (bind_of_ok (valueStart_run hws rfl text)).trans ((bind_skip _).trans ?_)
    refine placing_of_ok (closing_of_ok ?_ (closeObject_run rest))
    exact readMembers_spells [] hall (fun f _ => rfl) h (Nat.lt_succ_self _)

end Record

/-! ## What all records have in common -/

/-- **A field keeps a property** of the record, whether it is read or left out. -/
structure Field.Keeps (f : Field σ) (P : σ → Prop) : Prop where
  absent : ∀ change, f.absent = some change → ∀ s, P s → P (change s)
  read : Yields f.read fun change => ∀ s, P s → P (change s)

theorem Field.keeps_of {P : σ → Prop} {Q : α → Prop} {r : Reader α} {set : α → σ → σ} {default : α}
    (name : String) (hr : Yields r Q) (hdefault : Q default) (hset : ∀ a, Q a → ∀ s, P s → P (set a s)) :
    (Field.of name r set (some default)).Keeps P where
  absent change h := by
    cases h
    exact hset default hdefault
  read := hr.map set hset

namespace Record

variable {r : Record σ} {P : σ → Prop}

theorem build_keeps (hfields : ∀ f ∈ r.fields, f.Keeps P) (hblank : P r.blank)
    {given : List (String × (σ → σ))} (hgiven : ∀ m ∈ given, ∀ s, P s → P (m.2 s)) {s : σ}
    (h : r.build given = .ok s) : P s := by
  unfold build at h
  generalize r.blank = start at hblank h
  generalize r.fields = fields at hfields h
  induction fields generalizing start with
  | nil =>
    cases h
    exact hblank
  | cons f more ih =>
    obtain ⟨hf, hmore⟩ := List.forall_mem_cons.mp hfields
    rw [List.foldlM_cons] at h
    cases hchange : (given.lookup f.name).or f.absent with
    | none =>
      rw [hchange] at h
      cases h
    | some change =>
      rw [hchange] at h
      refine ih (change start) ?_ hmore h
      cases hlookup : given.lookup f.name with
      | none =>
        rw [hlookup, Option.none_or] at hchange
        exact hf.absent change hchange start hblank
      | some c =>
        rw [hlookup, Option.some_or] at hchange
        cases hchange
        obtain ⟨before, after, hmem, -⟩ := List.lookup_eq_some_iff.mp hlookup
        exact hgiven (f.name, change) (by simp [hmem]) start hblank

theorem readMembers_yields (hfields : ∀ f ∈ r.fields, f.Keeps P) (hblank : P r.blank) (fuel : Nat)
    (first : Bool) {given : List (String × (σ → σ))} (hgiven : ∀ m ∈ given, ∀ s, P s → P (m.2 s)) :
    Yields (r.readMembers fuel first given) P := by
  induction fuel generalizing first given with
  | zero => exact yields_stopAhead _
  | succ fuel ih =>
    refine yields_bind fun name => ?_
    cases name with
    | none =>
      cases hbuild : r.build given with
      | error e => exact yields_stopUnplaced e
      | ok s => exact yields_pure (build_keeps hfields hblank hgiven hbuild)
    | some name =>
      dsimp only
      cases hfind : r.fields.find? (·.name == name) with
      | none => exact yields_bind fun _ => yields_bind fun _ => ih false hgiven
      | some f =>
        dsimp only
        split
        · exact yields_stopUnplaced _
        · have hkeeps := hfields f (List.mem_of_find?_eq_some hfind)
          exact yields_bind fun _ => hkeeps.read.bind fun change hchange =>
            ih false (List.forall_mem_cons.mpr ⟨hchange, hgiven⟩)

theorem readItems_yields {fields : List (Field σ)} (hfields : ∀ f ∈ fields, f.Keeps P) (count : Nat)
    {s : σ} (hs : P s) : Yields (r.readItems fields count s) P := by
  induction fields generalizing count s with
  | nil => exact yields_pure hs
  | cons f more ih =>
    obtain ⟨hf, hmore⟩ := List.forall_mem_cons.mp hfields
    refine yields_bind fun there => ?_
    split
    · exact hf.read.bind fun change hchange => ih hmore (count + 1) (hchange s hs)
    · cases habsent : f.absent with
      | none => exact yields_stopUnplaced _
      | some change => exact ih hmore count (hf.absent change habsent s hs)

/-- **What all fields keep holds of every record that is read.** -/
theorem read_yields (hfields : ∀ f ∈ r.fields, f.Keeps P) (hblank : P r.blank) : Yields r.read P := by
  refine yields_bind fun b => ?_
  split
  · exact yields_bind fun _ => ((readItems_yields hfields 0 hblank).closing closeArray).placing
  · refine yields_bind fun _ => Yields.placing (Yields.closing ?_ closeObject)
    exact yields_bind fun left => readMembers_yields hfields hblank _ true (fun _ h => (nomatch h))
  · exact yields_mismatch r.expected

end Record

end WatchedStore.Json
