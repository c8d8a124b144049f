import WatchedStore.Proofs.Json.Grammar

/-!
# Passing over values

An unknown member is passed over without a look at what it says, by a loop that knows only which
containers are open. Here it is shown to take exactly the value that the text spells, however deep it
nests (`skipValue_spells`).

The loop does not return between the values of a container, so what it does with one value is told
together with what it does afterwards: if it gets from behind the value to some end, then it gets there
from in front of the value too (`skips_part`). The induction is on how the text spells the value.
-/

namespace WatchedStore.Json.Reader

/-- Goes on behind a value or an opening bracket, with these containers open. -/
def skipOn (comma : Bool) (fuel : Nat) (frames : List Frame) : Reader Unit := do
  match ← skipClosers frames comma ((← rest).length + 1) with
  | [] => return ()
  | .list :: outer => skipInside fuel (.list :: outer)
  | .object :: outer =>
    skipName
    skipInside fuel (.object :: outer)

variable {text tail rest mid ws : Bytes} {frame : Frame} {frames : List Frame} {fuel : Nat} {b : UInt8}

theorem skipInside_succ (fuel : Nat) (frames : List Frame) :
    skipInside (fuel + 1) frames =
      (do
        let opened ← skipStart
        skipOn opened.isNone fuel (opened.toList ++ frames)) := rfl

/-! ## Between the values of a container -/

/-- Closing containers takes at most one turn for each byte. -/
theorem skipClosers_fuel (frames : List Frame) (comma : Bool) {m n : Nat} (hm : text.length < m)
    (hn : text.length < n) : skipClosers frames comma m text = skipClosers frames comma n text := by
  induction m generalizing frames comma n text with
  | zero => exact absurd hm (Nat.not_lt_zero _)
  | succ m ih =>
    obtain ⟨n, rfl⟩ : ∃ k, n = k + 1 := ⟨n - 1, by omega⟩
    cases frames with
    | nil => rfl
    | cons frame outer =>
      rw [skipClosers, skipClosers, bind_peekPastBlanks, bind_peekPastBlanks]
      have hle : (text.dropWhile isBlank).length ≤ text.length :=
        (List.dropWhile_sublist isBlank).length_le
      cases hleft : text.dropWhile isBlank with
      | nil => rfl
      | cons b tail =>
        rw [hleft, List.length_cons] at hle
        dsimp only [List.head?_cons]
        simp only [ite_run, bind_skip, List.tail_cons]
        rw [ih outer true (n := n) (by omega) (by omega)]

/-- The end of a container. -/
theorem skipOn_close (hws : Blanks ws) (comma : Bool) (fuel : Nat) (frame : Frame)
    (frames : List Frame) (rest : Bytes) :
    skipOn comma fuel (frame :: frames) (ws ++ frame.closer :: rest) = skipOn true fuel frames rest := by
  have hblank : isBlank frame.closer = false := by cases frame <;> rfl
  have hclose : ∀ fuel, (ws ++ frame.closer :: rest).length < fuel + 1 →
      skipClosers (frame :: frames) comma (fuel + 1) (ws ++ frame.closer :: rest) =
        skipClosers frames true (rest.length + 1) rest := by
    intro fuel hfuel
    rw [List.length_append, List.length_cons] at hfuel
    rw [skipClosers, bind_peekPastBlanks, hws.dropWhile_cons hblank]
    dsimp only [List.head?_cons]
    have hcomma : ¬ (decide (frame.closer = 0x2C) && comma) = true := by cases frame <;> simp [Frame.closer]
    rw [ite_run, if_neg hcomma, ite_run, if_pos rfl, bind_skip, List.tail_cons]
    exact skipClosers_fuel frames true (by omega) (by omega)
  rw [skipOn, skipOn, bind_rest, bind_rest]
  exact bind_congr_run (hclose _ (Nat.lt_succ_self _))

/-- Goes on with the next item or member of the innermost container. -/
def skipEntry (fuel : Nat) (frames : List Frame) : Frame → Reader Unit
  | .list => skipInside fuel (.list :: frames)
  | .object => do
    skipName
    skipInside fuel (.object :: frames)

theorem skipOn_of_entry {comma : Bool} {left : Bytes}
    (h : skipClosers (frame :: frames) comma (text.length + 1) text = (.ok (frame :: frames), left)) :
    skipOn comma fuel (frame :: frames) text = skipEntry fuel frames frame left := by
  rw [skipOn, bind_rest, bind_of_ok h]
  cases frame <;> rfl

/-- A comma in front of the next item or member. -/
theorem skipOn_comma (hws : Blanks ws) (fuel : Nat) (frame : Frame) (frames : List Frame)
    (text : Bytes) :
    skipOn true fuel (frame :: frames) (ws ++ 0x2C :: text) = skipEntry fuel frames frame text := by
  refine skipOn_of_entry ?_
  rw [skipClosers, bind_peekPastBlanks, hws.dropWhile_cons rfl]
  rfl

/-- The first item or member, in front of which there is no comma. -/
theorem skipOn_first (h : text.dropWhile isBlank = b :: tail) (hb : b ≠ frame.closer)
    (fuel : Nat) (frames : List Frame) :
    skipOn false fuel (frame :: frames) text = skipEntry fuel frames frame (b :: tail) := by
  refine skipOn_of_entry ?_
  rw [skipClosers, bind_peekPastBlanks, h]
  dsimp only [List.head?_cons]
  rw [Bool.and_false, if_neg Bool.false_ne_true, if_neg hb, if_neg Bool.false_ne_true]
  rfl

/-- Blanks in front of an item or a member do not matter. -/
theorem skipEntry_blanks (h : text.dropWhile isBlank = b :: tail) (hfuel : 0 < fuel)
    (frames : List Frame) (frame : Frame) :
    skipEntry fuel frames frame (b :: tail) = skipEntry fuel frames frame text := by
  have hb : isBlank b = false := by
    have hhead := List.head_dropWhile_not isBlank (l := text) (h ▸ List.cons_ne_nil b tail)
    simpa only [h, List.head_cons] using hhead
  have hagain : (b :: tail).dropWhile isBlank = text.dropWhile isBlank := by
    rw [h, List.dropWhile_cons_of_neg (by simp [hb])]
  obtain ⟨n, rfl⟩ : ∃ n, fuel = n + 1 := ⟨fuel - 1, by omega⟩
  cases frame with
  | list =>
    have hstart : skipStart (b :: tail) = skipStart text := by
      rw [skipStart, bind_peekPastBlanks, bind_peekPastBlanks, hagain]
    exact bind_congr_run hstart
  | object =>
    have hquote : nameQuote (b :: tail) = nameQuote text := by
      rw [nameQuote, bind_peekPastBlanks, bind_peekPastBlanks, hagain]
    exact bind_congr_run (bind_congr_run hquote)

/-- **What stands between two items or members** leads to the next one. -/
theorem skipOn_separator {sep : Bytes} {first : Bool} (hsep : Separator first sep)
    (h : text.dropWhile isBlank = b :: tail) (frame : Frame) (hb : b ≠ frame.closer)
    (hfuel : 0 < fuel) (frames : List Frame) :
    skipOn (!first) fuel (frame :: frames) (sep ++ text) = skipEntry fuel frames frame text := by
  cases hsep with
  | none => exact (skipOn_first h hb fuel frames).trans (skipEntry_blanks h hfuel frames frame)
  | comma hws =>
    rw [List.append_assoc, List.singleton_append]
    exact skipOn_comma hws fuel frame frames text

/-! ## Values -/

/-- A name and its colon. -/
theorem skipName_spells {named gap : Bytes} {name : String} (hws : Blanks ws)
    (hname : stringRest named = (.ok name, gap ++ 0x3A :: text)) (hgap : Blanks gap) :
    skipName (ws ++ 0x22 :: named) = (.ok (), text) := by
  have hquote : nameQuote (ws ++ 0x22 :: named) = (.ok (), named) := by
    rw [nameQuote, bind_peekPastBlanks, hws.dropWhile_cons rfl]
    rfl
  obtain ⟨-, hskips⟩ := skipString_of_stringRest hname
  rw [skipName, bind_of_ok hquote, bind_rest, bind_of_ok (hskips _ (Nat.lt_succ_self _))]
  exact colon_run hgap text

/-- **What is to be shown of a part**: if it gets from behind the part to an end, then it gets there from
in front of it. -/
def Skips (text rest : Bytes) : Part → Prop
  | .value _ => ∀ frames final,
    (∀ fuel, rest.length < fuel → skipOn true fuel frames rest = (.ok (), final)) →
      ∀ fuel, text.length < fuel → skipInside fuel frames text = (.ok (), final)
  | .items first _ => ∀ frames final,
    (∀ fuel, rest.length < fuel → skipOn true fuel frames rest = (.ok (), final)) →
      ∀ fuel, text.length < fuel → skipOn (!first) fuel (.list :: frames) text = (.ok (), final)
  | .members first _ => ∀ frames final,
    (∀ fuel, rest.length < fuel → skipOn true fuel frames rest = (.ok (), final)) →
      ∀ fuel, text.length < fuel → skipOn (!first) fuel (.object :: frames) text = (.ok (), final)

/-- A value that is no container. -/
theorem skips_scalar {d : Document} (hstart : skipStart text = (.ok none, rest))
    (hless : rest.length < text.length) : Skips text rest (.value d) := by
  intro frames final hafter fuel hfuel
  obtain ⟨n, rfl⟩ : ∃ n, fuel = n + 1 := ⟨fuel - 1, by omega⟩
  rw [skipInside_succ, bind_of_ok hstart]
  exact hafter n (by omega)

theorem skips_list {ds : List Document} (hstart : skipStart text = (.ok (some .list), mid))
    (hless : mid.length < text.length) (h : Skips mid rest (.items true ds)) :
    Skips text rest (.value (.array ds)) := by
  intro frames final hafter fuel hfuel
  obtain ⟨n, rfl⟩ : ∃ n, fuel = n + 1 := ⟨fuel - 1, by omega⟩
  rw [skipInside_succ, bind_of_ok hstart]
  exact h frames final hafter n (by omega)

theorem skips_object {ms : List (String × Document)}
    (hstart : skipStart text = (.ok (some .object), mid)) (hless : mid.length < text.length)
    (h : Skips mid rest (.members true ms)) : Skips text rest (.value (.object ms)) := by
  intro frames final hafter fuel hfuel
  obtain ⟨n, rfl⟩ : ∃ n, fuel = n + 1 := ⟨fuel - 1, by omega⟩
  rw [skipInside_succ, bind_of_ok hstart]
  exact h frames final hafter n (by omega)

theorem length_lt_append (ws : Bytes) (b : UInt8) {text : Bytes} (h : rest.length ≤ text.length) :
    rest.length < (ws ++ b :: text).length := by
  rw [List.length_append, List.length_cons]
  omega

/-- A word behind its first letter. -/
theorem skips_word {d : Document} (hws : Blanks ws) (hb : isBlank b = false) (word : String)
    (hstart : ∀ text, skipStart (b :: text) = (wordRest word >>= fun _ => pure none) text)
    (rest : Bytes) :
    rest.length < (ws ++ b :: (Bytes.ofText word ++ rest)).length ∧
      Skips (ws ++ b :: (Bytes.ofText word ++ rest)) rest (.value d) := by
  have hless : rest.length < (ws ++ b :: (Bytes.ofText word ++ rest)).length := by
    refine length_lt_append ws b ?_
    rw [List.length_append]
    omega
  refine ⟨hless, skips_scalar ?_ hless⟩
  have hdrop : (b :: (Bytes.ofText word ++ rest)).dropWhile isBlank =
      b :: (Bytes.ofText word ++ rest) := List.dropWhile_cons_of_neg (by simp [hb])
  have hblanks : skipStart (ws ++ b :: (Bytes.ofText word ++ rest)) =
      skipStart (b :: (Bytes.ofText word ++ rest)) := by
    rw [skipStart, bind_peekPastBlanks, bind_peekPastBlanks, hws.dropWhile_cons hb, hdrop]
  rw [hblanks, hstart, bind_of_ok (wordRest_append word rest)]
  rfl

theorem skips_number {d : Document} (hws : Blanks ws) (hb : isDigit b = true)
    (h : skipNumber (b :: text) = (.ok (), rest)) (hshorter : rest.length < (b :: text).length) :
    rest.length < (ws ++ b :: text).length ∧ Skips (ws ++ b :: text) rest (.value d) := by
  have hless := length_lt_append ws b (Nat.le_of_lt_succ hshorter)
  refine ⟨hless, skips_scalar ?_ hless⟩
  rw [skipStart, bind_peekPastBlanks, hws.dropWhile_cons (isBlank_of_isDigit hb)]
  dsimp only [List.head?_cons]
  rw [if_pos hb, bind_of_ok h]
  rfl

theorem skips_negative {d : Document} (hws : Blanks ws) (h : skipNumber text = (.ok (), rest))
    (hshorter : rest.length < text.length) :
    rest.length < (ws ++ 0x2D :: text).length ∧ Skips (ws ++ 0x2D :: text) rest (.value d) := by
  have hless := length_lt_append ws 0x2D (Nat.le_of_lt hshorter)
  refine ⟨hless, skips_scalar ?_ hless⟩
  rw [skipStart, bind_peekPastBlanks, hws.dropWhile_cons rfl]
  exact bind_of_ok h

theorem skips_string {d : Document} (hws : Blanks ws)
    (h : skipString (text.length + 1) text = (.ok (), rest)) (hshorter : rest.length < text.length) :
    rest.length < (ws ++ 0x22 :: text).length ∧ Skips (ws ++ 0x22 :: text) rest (.value d) := by
  have hless := length_lt_append ws 0x22 (Nat.le_of_lt hshorter)
  refine ⟨hless, skips_scalar ?_ hless⟩
  rw [skipStart, bind_peekPastBlanks, hws.dropWhile_cons rfl]
  exact bind_of_ok h

/-- **Every part gets passed over**, and takes at least one byte. -/
theorem skips_part {part : Part} (h : Spells text part rest) :
    rest.length < text.length ∧ Skips text rest part := by
  induction h with
  | @null ws rest hws => exact skips_word hws rfl "ull" (fun _ => rfl) rest
  | @bool ws rest b hws =>
    cases b with
    | false => exact skips_word hws rfl "alse" (fun _ => rfl) rest
    | true => exact skips_word hws rfl "rue" (fun _ => rfl) rest
  | @number ws text rest d n hws hd h =>
    obtain ⟨htakes, hshorter⟩ := number_takes h
    exact skips_number hws hd htakes.passed hshorter
  | @negative ws text rest n hws h =>
    obtain ⟨htakes, hshorter⟩ := number_takes h
    exact skips_negative hws htakes.passed hshorter
  | @string ws text rest s hws h =>
    obtain ⟨hshorter, hskips⟩ := skipString_of_stringRest h
    exact skips_string hws (hskips _ (Nat.lt_succ_self _)) hshorter
  | unheldNumber hws hd _ h => exact skips_number hws hd h (skipNumber_shorter h)
  | unheldNegative hws _ h => exact skips_negative hws h (skipNumber_shorter h)
  | unheldString hws _ h => exact skips_string hws h (skipString_shorter h)
  | @array ws text rest ds hws h ih =>
    have hless := length_lt_append ws 0x5B (Nat.le_refl text.length)
    refine ⟨Nat.lt_trans ih.1 hless, skips_list ?_ hless ih.2⟩
    rw [skipStart, bind_peekPastBlanks, hws.dropWhile_cons rfl]
    rfl
  | @object ws text rest ms hws h ih =>
    have hless := length_lt_append ws 0x7B (Nat.le_refl text.length)
    refine ⟨Nat.lt_trans ih.1 hless, skips_object ?_ hless ih.2⟩
    rw [skipStart, bind_peekPastBlanks, hws.dropWhile_cons rfl]
    rfl
  | @lastItem ws rest first hws =>
    have hless := length_lt_append ws 0x5D (Nat.le_refl rest.length)
    refine ⟨hless, fun frames final hafter fuel hfuel => ?_⟩
    exact (skipOn_close hws (!first) fuel .list frames rest).trans (hafter fuel (by omega))
  | @item sep text mid rest first d ds hsep h hrest ih ihrest =>
    obtain ⟨b, tail, hstart, hb, -⟩ := h.start
    refine ⟨?_, fun frames final hafter fuel hfuel => ?_⟩
    · rw [List.length_append]
      omega
    · rw [List.length_append] at hfuel
      have hentry : skipOn (!first) fuel (.list :: frames) (sep ++ text) =
          skipEntry fuel frames .list text := skipOn_separator hsep hstart .list hb (by omega) frames
      rw [hentry]
      exact ih.2 (.list :: frames) final (ihrest.2 frames final hafter) fuel (by omega)
  | @lastMember ws rest first hws =>
    have hless := length_lt_append ws 0x7D (Nat.le_refl rest.length)
    refine ⟨hless, fun frames final hafter fuel hfuel => ?_⟩
    exact (skipOn_close hws (!first) fuel .object frames rest).trans (hafter fuel (by omega))
  | @member sep ws named gap text mid rest first name d ms hsep hws hname hgap h hrest ih ihrest =>
    have hshorter : text.length < (sep ++ (ws ++ 0x22 :: named)).length := length_lt_member hname
    refine ⟨by omega, fun frames final hafter fuel hfuel => ?_⟩
    have hentry : skipOn (!first) fuel (.object :: frames) (sep ++ (ws ++ 0x22 :: named)) =
        skipEntry fuel frames .object (ws ++ 0x22 :: named) :=
      skipOn_separator hsep (hws.dropWhile_cons rfl _) .object (by decide) (by omega) frames
    rw [hentry, skipEntry, bind_of_ok (skipName_spells hws hname hgap)]
    exact ih.2 (.object :: frames) final (ihrest.2 frames final hafter) fuel (by omega)

/-- **A value is passed over as a whole**, whatever it holds. -/
theorem skipValue_spells {d : Document} (h : Spells text (.value d) rest) :
    skipValue text = (.ok (), rest) := by
  rw [skipValue, bind_rest]
  exact (skips_part h).2 [] rest (fun _ _ => rfl) _ (Nat.lt_succ_self _)

end WatchedStore.Json.Reader
