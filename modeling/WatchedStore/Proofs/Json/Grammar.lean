import WatchedStore.Json.Typed
import WatchedStore.Proofs.Json.Reading

/-!
# Which texts spell a document

The grammar of JSON with all its freedom: any blanks around values and between the parts of containers,
any order of an object's members, any spelling of strings and numbers. What a single string or number
means is left to the reading of strings and numbers, which is told by its own laws; here is how values
are put together.

`Spells` keeps the text that is left, since values stand behind one another. Members stand as they are
written: a name may occur several times, and nothing is sorted. So these documents are trees of what
a text says, which may be less tidy than the documents that are written.
-/

namespace WatchedStore.Json

open Reader

/-- Blanks and nothing else. -/
def Blanks (ws : Bytes) : Prop := ∀ b ∈ ws, isBlank b = true

/-- What stands in front of an item or a member: nothing in front of the first, else a comma. -/
inductive Separator : Bool → Bytes → Prop
  | none : Separator true []
  | comma {ws : Bytes} (hws : Blanks ws) : Separator false (ws ++ [0x2C])

/-- A part of a text: a value, or the items or members that are left of a container, with its end. -/
inductive Part where
  | value (d : Document)
  | items (first : Bool) (ds : List Document)
  | members (first : Bool) (ms : List (String × Document))

/-- **A text that begins with a part**, and what is left behind it. A number or a string that no document
holds, such as one beyond all doubles or with half of a surrogate pair, is told as `null`: nothing matters
of it but where it ends. -/
inductive Spells : Bytes → Part → Bytes → Prop
  | null {ws rest : Bytes} (hws : Blanks ws) :
    Spells (ws ++ (Bytes.ofText "null" ++ rest)) (.value .null) rest
  | bool {ws rest : Bytes} (b : Bool) (hws : Blanks ws) :
    Spells (ws ++ (Bytes.ofText (if b then "true" else "false") ++ rest)) (.value (.bool b)) rest
  | number {ws text rest : Bytes} {d : UInt8} {n : Number} (hws : Blanks ws) (hd : isDigit d = true)
      (h : Reader.number true (d :: text) = (.ok n, rest)) :
    Spells (ws ++ d :: text) (.value (.number n)) rest
  | negative {ws text rest : Bytes} {n : Number} (hws : Blanks ws)
      (h : Reader.number false text = (.ok n, rest)) :
    Spells (ws ++ 0x2D :: text) (.value (.number n)) rest
  | string {ws text rest : Bytes} {s : String} (hws : Blanks ws) (h : stringRest text = (.ok s, rest)) :
    Spells (ws ++ 0x22 :: text) (.value (.string s)) rest
  | unheldNumber {ws text rest : Bytes} {d : UInt8} (hws : Blanks ws) (hd : isDigit d = true)
      (hnone : ∀ n left, Reader.number true (d :: text) ≠ (.ok n, left))
      (h : skipNumber (d :: text) = (.ok (), rest)) :
    Spells (ws ++ d :: text) (.value .null) rest
  | unheldNegative {ws text rest : Bytes} (hws : Blanks ws)
      (hnone : ∀ n left, Reader.number false text ≠ (.ok n, left))
      (h : skipNumber text = (.ok (), rest)) :
    Spells (ws ++ 0x2D :: text) (.value .null) rest
  | unheldString {ws text rest : Bytes} (hws : Blanks ws)
      (hnone : ∀ s left, stringRest text ≠ (.ok s, left))
      (h : skipString (text.length + 1) text = (.ok (), rest)) :
    Spells (ws ++ 0x22 :: text) (.value .null) rest
  | array {ws text rest : Bytes} {ds : List Document} (hws : Blanks ws)
      (h : Spells text (.items true ds) rest) :
    Spells (ws ++ 0x5B :: text) (.value (.array ds)) rest
  | object {ws text rest : Bytes} {ms : List (String × Document)} (hws : Blanks ws)
      (h : Spells text (.members true ms) rest) :
    Spells (ws ++ 0x7B :: text) (.value (.object ms)) rest
  | lastItem {ws rest : Bytes} {first : Bool} (hws : Blanks ws) :
    Spells (ws ++ 0x5D :: rest) (.items first []) rest
  | item {sep text mid rest : Bytes} {first : Bool} {d : Document} {ds : List Document}
      (hsep : Separator first sep) (h : Spells text (.value d) mid)
      (hrest : Spells mid (.items false ds) rest) :
    Spells (sep ++ text) (.items first (d :: ds)) rest
  | lastMember {ws rest : Bytes} {first : Bool} (hws : Blanks ws) :
    Spells (ws ++ 0x7D :: rest) (.members first []) rest
  | member {sep ws named gap text mid rest : Bytes} {first : Bool} {name : String} {d : Document}
      {ms : List (String × Document)} (hsep : Separator first sep) (hws : Blanks ws)
      (hname : stringRest named = (.ok name, gap ++ 0x3A :: text)) (hgap : Blanks gap)
      (h : Spells text (.value d) mid) (hrest : Spells mid (.members false ms) rest) :
    Spells (sep ++ (ws ++ 0x22 :: named)) (.members first ((name, d) :: ms)) rest

/-- **A text of a document**, with blanks around it. -/
def IsText (text : Bytes) (d : Document) : Prop := ∃ rest, Spells text (.value d) rest ∧ Blanks rest

variable {text rest ws : Bytes} {b : UInt8} {d : Document}

theorem blanks_nil : Blanks [] := fun _ h => (nomatch h)

theorem Blanks.dropWhile (h : Blanks ws) (text : Bytes) :
    (ws ++ text).dropWhile isBlank = text.dropWhile isBlank :=
  List.dropWhile_append_of_pos h

/-- What comes behind blanks. -/
theorem Blanks.dropWhile_cons (h : Blanks ws) (hb : isBlank b = false) (text : Bytes) :
    (ws ++ b :: text).dropWhile isBlank = b :: text := by
  rw [h.dropWhile, List.dropWhile_cons_of_neg (by simp [hb])]

theorem isBlank_of_isDigit (h : isDigit b = true) : isBlank b = false := by
  simp only [isDigit, Bool.and_eq_true, decide_eq_true_eq, UInt8.le_iff_toNat_le] at h
  have hlow : 48 ≤ b.toNat := h.1
  simp only [isBlank, Bool.or_eq_false_iff, decide_eq_false_iff_not, ← UInt8.toNat_inj]
  refine ⟨⟨⟨?_, ?_⟩, ?_⟩, ?_⟩ <;> intro heq <;> rw [heq] at hlow <;> exact absurd hlow (by decide)

theorem colon_run (hws : Blanks ws) (text : Bytes) : colon (ws ++ 0x3A :: text) = (.ok (), text) := by
  rw [colon, bind_peekPastBlanks, hws.dropWhile_cons rfl]
  rfl

theorem valueStart_run {b : UInt8} (hws : Blanks ws) (hb : isBlank b = false) (text : Bytes) :
    valueStart (ws ++ b :: text) = (.ok b, b :: text) := by
  rw [valueStart, bind_peekPastBlanks, hws.dropWhile_cons hb]
  rfl

theorem blanks_of_dropWhile (h : ws.dropWhile isBlank = []) : Blanks ws := by
  have hall := List.takeWhile_append_dropWhile (p := isBlank) (l := ws)
  rw [h, List.append_nil] at hall
  intro b hb
  rw [← hall] at hb
  exact List.all_eq_true.mp List.all_takeWhile b hb

/-- A value starts behind blanks. -/
theorem valueStart_eq_ok (h : valueStart text = (.ok b, rest)) :
    ∃ ws tail, text = ws ++ b :: tail ∧ rest = b :: tail ∧ Blanks ws := by
  rw [valueStart, bind_peekPastBlanks] at h
  cases hleft : text.dropWhile isBlank with
  | nil =>
    rw [hleft] at h
    cases h
  | cons c tail =>
    rw [hleft] at h
    cases h
    refine ⟨text.takeWhile isBlank, tail, ?_, rfl, ?_⟩
    · rw [← hleft, List.takeWhile_append_dropWhile]
    · exact fun d hd => List.all_eq_true.mp List.all_takeWhile d hd

/-- The value of a member is shorter than the member. -/
theorem length_lt_member {sep named gap : Bytes} {name : String}
    (hname : stringRest named = (.ok name, gap ++ 0x3A :: text)) :
    text.length < (sep ++ (ws ++ 0x22 :: named)).length := by
  obtain ⟨hshorter, -⟩ := skipString_of_stringRest hname
  simp only [List.length_append, List.length_cons] at hshorter ⊢
  omega

/-- A value starts with a byte that is no blank and closes no array; the blanks in front of it do not
belong to it. -/
theorem Spells.start (h : Spells text (.value d) rest) :
    ∃ b tail, text.dropWhile isBlank = b :: tail ∧ b ≠ 0x5D ∧ Spells (b :: tail) (.value d) rest := by
  cases h with
  | null hws =>
    exact ⟨_, _, hws.dropWhile_cons rfl _, by decide, .null blanks_nil⟩
  | bool b hws =>
    cases b
    · exact ⟨_, _, hws.dropWhile_cons rfl _, by decide, .bool false blanks_nil⟩
    · exact ⟨_, _, hws.dropWhile_cons rfl _, by decide, .bool true blanks_nil⟩
  | number hws hd h =>
    refine ⟨_, _, hws.dropWhile_cons (isBlank_of_isDigit hd) _, ?_, .number blanks_nil hd h⟩
    rintro rfl
    cases hd
  | negative hws h => exact ⟨_, _, hws.dropWhile_cons rfl _, by decide, .negative blanks_nil h⟩
  | string hws h => exact ⟨_, _, hws.dropWhile_cons rfl _, by decide, .string blanks_nil h⟩
  | unheldNumber hws hd hnone h =>
    refine ⟨_, _, hws.dropWhile_cons (isBlank_of_isDigit hd) _, ?_, .unheldNumber blanks_nil hd hnone h⟩
    rintro rfl
    cases hd
  | unheldNegative hws hnone h =>
    exact ⟨_, _, hws.dropWhile_cons rfl _, by decide, .unheldNegative blanks_nil hnone h⟩
  | unheldString hws hnone h =>
    exact ⟨_, _, hws.dropWhile_cons rfl _, by decide, .unheldString blanks_nil hnone h⟩
  | array hws h => exact ⟨_, _, hws.dropWhile_cons rfl _, by decide, .array blanks_nil h⟩
  | object hws h => exact ⟨_, _, hws.dropWhile_cons rfl _, by decide, .object blanks_nil h⟩

end WatchedStore.Json
