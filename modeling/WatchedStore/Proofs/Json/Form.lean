import WatchedStore.Json.Typed
import WatchedStore.Proofs.Json.Skip

/-!
# Reading values of a wanted form

A typed reader is told by what it makes of a document (`Carries`): where the text spells a document that
has a value in this form, the reader takes just that document and gives this value. So what a reader
does with all texts is said without texts, by a function on documents.
-/

namespace WatchedStore.Json

open Reader

/-! ## The values of documents -/

namespace Document

/-- The text that a document is. -/
def text? : Document → Option String
  | .string s => some s
  | _ => none

/-- The truth value that a document is. -/
def truth? : Document → Option Bool
  | .bool b => some b
  | _ => none

/-- The natural number that a document is. -/
def natural? : Document → Option UInt64
  | .number (.natural n) => some n
  | _ => none

/-- The double that a document is, or that its integer is rounded to. -/
def double? : Document → Option Float
  | .number (.natural n) => some n.toFloat
  | .number (.negative n) => some n.toFloat
  | .number (.double x) => some x
  | _ => none

/-- The values of an object's members, with their names. -/
def entries? (value? : Document → Option α) : Document → Option (List (String × α))
  | .object ms => ms.mapM fun (name, d) => (value? d).map (name, ·)
  | _ => none

/-- Whether a document is a text. -/
def isString : Document → Bool
  | .string _ => true
  | _ => false

/-- Whether a document is a truth value. -/
def isTruth : Document → Bool
  | .bool _ => true
  | _ => false

/-- Whether a document is a natural number of 64 bits. -/
def isNatural : Document → Bool
  | .number (.natural _) => true
  | _ => false

/-- Whether a document is a number. -/
def isNumber : Document → Bool
  | .number _ => true
  | _ => false

/-- Whether a document is an object of values of a form. -/
def isObjectOf (form : Document → Bool) : Document → Bool
  | .object ms => ms.all fun (_, d) => form d
  | _ => false

variable {d : Document}

theorem exists_text (h : d.isString = true) : ∃ s, d.text? = some s := by
  unfold isString at h
  split at h
  · exact ⟨_, rfl⟩
  · cases h

theorem exists_truth (h : d.isTruth = true) : ∃ b, d.truth? = some b := by
  unfold isTruth at h
  split at h
  · exact ⟨_, rfl⟩
  · cases h

theorem exists_natural (h : d.isNatural = true) : ∃ n, d.natural? = some n := by
  unfold isNatural at h
  split at h
  · exact ⟨_, rfl⟩
  · cases h

theorem exists_double (h : d.isNumber = true) : ∃ x, d.double? = some x := by
  unfold isNumber at h
  split at h
  · rename_i n
    cases n <;> exact ⟨_, rfl⟩
  · cases h

theorem entries?_cons {value? : Document → Option α} {name : String} {d : Document}
    {ms : List (String × Document)} {as : List (String × α)} :
    (object ((name, d) :: ms)).entries? value? = some as ↔
      ∃ a, value? d = some a ∧ ∃ rest, (object ms).entries? value? = some rest ∧
        as = (name, a) :: rest := by
  simp only [entries?, List.mapM_cons, bind, pure, Option.bind_eq_some_iff, Option.map_eq_some_iff,
    Option.some.injEq]
  constructor
  · rintro ⟨_, ⟨a, ha, rfl⟩, rest, hrest, rfl⟩
    exact ⟨a, ha, rest, hrest, rfl⟩
  · rintro ⟨a, ha, rest, hrest, rfl⟩
    exact ⟨_, ⟨a, ha, rfl⟩, rest, hrest, rfl⟩

theorem exists_entries {form : Document → Bool} {value? : Document → Option α}
    (hform : ∀ d, form d = true → ∃ a, value? d = some a) (h : d.isObjectOf form = true) :
    ∃ as, d.entries? value? = some as := by
  unfold isObjectOf at h
  split at h
  · rename_i ms
    induction ms with
    | nil => exact ⟨[], rfl⟩
    | cons m ms ih =>
      rw [List.all_cons, Bool.and_eq_true] at h
      obtain ⟨a, ha⟩ := hform m.2 h.1
      obtain ⟨as, has⟩ := ih h.2
      exact ⟨_, entries?_cons.mpr ⟨a, ha, as, has, rfl⟩⟩
  · cases h

end Document

/-- **A reader that reads documents as a function says**: what it takes is the document. -/
def Carries (r : Reader α) (value? : Document → Option α) : Prop :=
  ∀ ⦃text rest d a⦄, Spells text (.value d) rest → value? d = some a → r text = (.ok a, rest)

section Carries

variable {r : Reader α} {value? : Document → Option α} {text rest ws : Bytes} {a : α}

theorem Carries.map (h : Carries r value?) (f : α → β) :
    Carries (f <$> r) (fun d => (value? d).map f) := by
  intro text rest d b hspells hb
  obtain ⟨a, ha, rfl⟩ := Option.map_eq_some_iff.mp hb
  exact map_eq_ok_iff.mpr ⟨a, h hspells ha, rfl⟩

/-! ## Scalars -/

theorem numberAs_spells {expected : String} {accept : Number → Reader α} {n : Number}
    (h : Spells text (.value (.number n)) rest) (haccept : accept n rest = (.ok a, rest)) :
    numberAs expected accept text = (.ok a, rest) := by
  cases h with
  | @number ws text rest d n hws hd h =>
    have hminus : ¬ d = 0x2D := by
      rintro rfl
      cases hd
    rw [numberAs, bind_of_ok (valueStart_run hws (isBlank_of_isDigit hd) text), if_neg hminus, if_pos hd]
    exact placing_of_ok (bind_of_ok h ▸ haccept)
  | @negative ws text rest n hws h =>
    rw [numberAs, bind_of_ok (valueStart_run hws rfl text), if_pos rfl]
    exact placing_of_ok ((bind_of_ok h).trans haccept)

theorem carries_natural (expected : String) :
    Carries (naturalUpTo 0xFFFFFFFFFFFFFFFF expected) Document.natural? := by
  intro text rest d n hspells hn
  unfold Document.natural? at hn
  split at hn
  · cases hn
    refine numberAs_spells hspells ?_
    dsimp only
    rw [if_pos (Nat.le_of_lt_succ n.toNat_lt)]
    rfl
  · cases hn

theorem carries_size : Carries size fun d => d.natural?.map UInt64.toNat :=
  (carries_natural "usize").map UInt64.toNat

theorem carries_double : Carries double Document.double? := by
  intro text rest d x hspells hx
  unfold Document.double? at hx
  split at hx <;> cases hx
  all_goals exact numberAs_spells hspells rfl

theorem carries_boolean : Carries boolean Document.truth? := by
  intro text rest d b hspells hb
  unfold Document.truth? at hb
  split at hb <;> cases hb
  cases hspells with
  | @bool ws rest _ hws =>
    cases b with
    | false =>
      refine (bind_of_ok (valueStart_run hws rfl (Bytes.ofText "alse" ++ rest))).trans ?_
      exact (bind_skip _).trans (bind_of_ok (wordRest_append "alse" rest))
    | true =>
      refine (bind_of_ok (valueStart_run hws rfl (Bytes.ofText "rue" ++ rest))).trans ?_
      exact (bind_skip _).trans (bind_of_ok (wordRest_append "rue" rest))

theorem carries_string : Carries Reader.string Document.text? := by
  intro text rest d s hspells hs
  unfold Document.text? at hs
  split at hs <;> cases hs
  cases hspells with
  | @string ws text rest _ hws h =>
    exact (bind_of_ok (valueStart_run hws rfl text)).trans ((bind_skip _).trans h)

/-! ## Objects -/

theorem nextName_end (hws : Blanks ws) (first : Bool) (rest : Bytes) :
    nextName first (ws ++ 0x7D :: rest) = (.ok none, 0x7D :: rest) := by
  rw [nextName, bind_peekPastBlanks, hws.dropWhile_cons rfl]
  rfl

theorem nextName_member {sep named left : Bytes} {first : Bool} {name : String}
    (hsep : Separator first sep) (hws : Blanks ws) (hname : stringRest named = (.ok name, left)) :
    nextName first (sep ++ (ws ++ 0x22 :: named)) = (.ok (some name), left) := by
  have hquoted : memberName (some 0x22) (0x22 :: named) = (.ok (some name), left) := by
    rw [memberName, bind_skip, List.tail_cons, bind_of_ok hname]
    rfl
  cases hsep with
  | none =>
    rw [List.nil_append, nextName, bind_peekPastBlanks, hws.dropWhile_cons rfl]
    exact hquoted
  | comma hcomma =>
    rw [List.append_assoc, List.singleton_append, nextName, bind_peekPastBlanks,
      hcomma.dropWhile_cons rfl]
    refine (bind_skip _).trans ?_
    rw [List.tail_cons, bind_peekPastBlanks, hws.dropWhile_cons rfl]
    exact hquoted

theorem closeObject_run (rest : Bytes) : closeObject (0x7D :: rest) = (.ok (), rest) := rfl

/-- What an object holds is read in its order, up to the closing bracket. -/
theorem members_spells (hr : Carries r value?) {ms : List (String × Document)} {first : Bool}
    (h : Spells text (.members first ms) rest) {as : List (String × α)}
    (hms : (Document.object ms).entries? value? = some as) {fuel : Nat} (hfuel : text.length < fuel) :
    members r fuel first text = (.ok as, 0x7D :: rest) := by
  induction ms generalizing text first as fuel with
  | nil =>
    obtain ⟨n, rfl⟩ : ∃ n, fuel = n + 1 := ⟨fuel - 1, by omega⟩
    cases h with
    | lastMember hws =>
      cases hms
      rw [members, bind_of_ok (nextName_end hws first rest)]
      rfl
  | cons m ms ih =>
    obtain ⟨n, rfl⟩ : ∃ n, fuel = n + 1 := ⟨fuel - 1, by omega⟩
    cases h with
    | @member sep ws named gap text mid _ _ name d _ hsep hws hname hgap h hrest =>
      obtain ⟨a, ha, more, hmore, rfl⟩ := Document.entries?_cons.mp hms
      have hshorter : text.length < (sep ++ (ws ++ 0x22 :: named)).length := length_lt_member hname
      obtain ⟨hless, -⟩ := skips_part h
      rw [members, bind_of_ok (nextName_member hsep hws hname)]
      dsimp only
      rw [bind_of_ok (colon_run hgap text), bind_of_ok (hr h ha),
        bind_of_ok (ih hrest hmore (by omega))]
      rfl

/-- **An object is read as what its members say.** -/
theorem Carries.object (hr : Carries r value?) : Carries (Reader.map r) (Document.entries? value?) := by
  intro text rest d as hspells has
  cases hspells with
  | @object ws text rest ms hws h =>
    refine (bind_of_ok (valueStart_run hws rfl text)).trans ((bind_skip _).trans ?_)
    exact placing_of_ok (closing_of_ok (members_spells hr h has (Nat.lt_succ_self _))
      (closeObject_run rest))
  | _ => cases has

/-! ## Whole texts -/

/-- **A text of a document is read as this document.** -/
theorem Carries.run (hr : Carries r value?) {d : Document} (h : IsText text d)
    (ha : value? d = some a) : r.run text = .ok a := by
  obtain ⟨rest, hspells, hrest⟩ := h
  have hempty : rest.dropWhile isBlank = [] := by
    have hall := hrest.dropWhile []
    rwa [List.append_nil] at hall
  exact run_of_ok (hr hspells ha) hempty

end Carries

end WatchedStore.Json
