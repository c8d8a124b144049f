import WatchedStore.Json.Reader

/-!
# What readers do with the bytes that are left

A reader is run by running its steps: a step that succeeds hands its result and what it leaves to the next
one (`bind_of_ok`), and a run that succeeded can be taken apart again (`bind_eq_ok_iff`). The steps that
look at single bytes are evaluated by `simp`.

Numbers and strings are told here by what they take from the text. Whatever is read as a number or as a
string is passed over in the same way, though passing over looks at less (`number_takes`,
`skipString_of_stringRest`). And a number does not depend on what follows, unless that could go on with it
(`Takes.apart`).
-/

namespace WatchedStore.Json.Reader

/-! ## Steps -/

section Steps

variable {α β : Type} {r : Reader α} {f : α → Reader β} {a : α} {b : β} {text left mid : Bytes}

theorem bind_of_ok (h : r text = (.ok a, mid)) : (r >>= f) text = f a mid := by
  simp only [bind, ExceptT.bind, ExceptT.mk, StateT.bind, ExceptT.bindCont, h]

theorem bind_of_error {e : Failure} (h : r text = (.error e, mid)) :
    (r >>= f) text = (.error e, mid) := by
  simp only [bind, ExceptT.bind, ExceptT.mk, StateT.bind, ExceptT.bindCont, h]
  rfl

theorem bind_congr_run {q : Reader α} {text' : Bytes} (h : r text = q text') :
    (r >>= f) text = (q >>= f) text' := by
  simp only [bind, ExceptT.bind, ExceptT.mk, StateT.bind, h]

theorem bind_eq_ok_iff :
    (r >>= f) text = (.ok b, left) ↔ ∃ a mid, r text = (.ok a, mid) ∧ f a mid = (.ok b, left) := by
  constructor
  · intro h
    rcases hr : r text with ⟨result, mid⟩
    cases result with
    | ok a =>
      rw [bind_of_ok hr] at h
      exact ⟨a, mid, rfl, h⟩
    | error e =>
      rw [bind_of_error hr] at h
      cases h
  · rintro ⟨a, mid, hr, hf⟩
    rw [bind_of_ok hr, hf]

theorem map_eq_ok_iff {g : α → β} :
    (g <$> r) text = (.ok b, left) ↔ ∃ a, r text = (.ok a, left) ∧ g a = b := by
  rw [← bind_pure_comp, bind_eq_ok_iff]
  constructor
  · rintro ⟨a, mid, hr, hb⟩
    cases hb
    exact ⟨a, hr, rfl⟩
  · rintro ⟨a, hr, rfl⟩
    exact ⟨a, left, hr, rfl⟩

theorem placing_of_ok (h : r text = (.ok a, left)) : placing r text = (.ok a, left) := by
  simp only [placing, h]

theorem placing_eq_ok_iff : placing r text = (.ok a, left) ↔ r text = (.ok a, left) := by
  constructor
  · intro h
    unfold placing at h
    split at h
    · cases h
    · exact h
  · exact placing_of_ok

theorem closing_of_ok {close : Reader Unit} (h : r text = (.ok a, mid))
    (hclose : close mid = (.ok (), left)) : closing r close text = (.ok a, left) := by
  simp only [closing, h]
  rw [bind_of_ok hclose]
  rfl

theorem ite_run (c : Prop) [Decidable c] (q : Reader α) :
    (if c then r else q) text = if c then r text else q text := by
  split <;> rfl

@[simp] theorem pure_run : (pure a : Reader α) text = (.ok a, text) := rfl

theorem pure_eq_ok_iff {a' : α} : (pure a : Reader α) text = (.ok a', left) ↔ a = a' ∧ text = left := by
  constructor
  · intro h
    cases h
    exact ⟨rfl, rfl⟩
  · rintro ⟨rfl, rfl⟩
    rfl

@[simp] theorem bind_peek (f : Option UInt8 → Reader β) : (peek >>= f) text = f text.head? text := rfl

@[simp] theorem bind_next (f : Option UInt8 → Reader β) :
    (next >>= f) text = f text.head? text.tail := rfl

@[simp] theorem bind_skip (f : Unit → Reader β) : (skip >>= f) text = f () text.tail := rfl

@[simp] theorem bind_rest (f : Bytes → Reader β) : (rest >>= f) text = f text text := rfl

@[simp] theorem bind_setRest (f : Unit → Reader β) : (setRest left >>= f) text = f () left := rfl

@[simp] theorem bind_takeDigits (f : Bytes → Reader β) :
    (takeDigits >>= f) text = f (text.takeWhile isDigit) (text.dropWhile isDigit) := rfl

@[simp] theorem bind_peekPastBlanks (f : Option UInt8 → Reader β) :
    (peekPastBlanks >>= f) text = f (text.dropWhile isBlank).head? (text.dropWhile isBlank) := rfl

/-- Whether a digit comes next. -/
def digitAhead (text : Bytes) : Bool := (text.head?.map isDigit).getD false

/-- Whether an exponent comes next. -/
def exponentAhead (text : Bytes) : Bool := text.head? == some 0x65 || text.head? == some 0x45

@[simp] theorem bind_peekIsDigit (f : Bool → Reader β) :
    (peekIsDigit >>= f) text = f (digitAhead text) text := rfl

@[simp] theorem bind_peekIsExponent (f : Bool → Reader β) :
    (peekIsExponent >>= f) text = f (exponentAhead text) text := rfl

@[simp] theorem stop_eq_ok_iff {e : Fault} : (stop e : Reader α) text = (.ok a, left) ↔ False :=
  ⟨nofun, False.elim⟩

@[simp] theorem stopAhead_eq_ok_iff {e : Fault} :
    (stopAhead e : Reader α) text = (.ok a, left) ↔ False :=
  ⟨nofun, False.elim⟩

end Steps

/-! ## Words -/

theorem expect_append (word rest : Bytes) : expect word (word ++ rest) = (.ok (), rest) := by
  induction word with
  | nil => rfl
  | cons b more ih =>
    rw [List.cons_append, expect, bind_next]
    dsimp only [List.head?_cons, List.tail_cons]
    rw [if_pos rfl, ih]

theorem wordRest_append (s : String) (rest : Bytes) :
    wordRest s (Bytes.ofText s ++ rest) = (.ok (), rest) :=
  expect_append _ rest

/-! ## Numbers -/

/-- **Nothing that could go on with a number** comes next. -/
structure Ends (more : Bytes) : Prop where
  digit : digitAhead more = false
  point : (more.head? == some 0x2E) = false
  exponent : exponentAhead more = false

/-- **What a part of a number takes** from a text: as much as is passed over, and as much as it takes
when something else follows. -/
structure Takes (r : Reader α) (q : Reader Unit) (text : Bytes) (a : α) (rest : Bytes) : Prop where
  passed : q text = (.ok (), rest)
  shorter : rest.length ≤ text.length
  apart : ∀ more, Ends more → r (text ++ more) = (.ok a, rest ++ more)

section Numbers

variable {text rest mid more : Bytes}

theorem digitAhead_append (hmore : Ends more) : digitAhead (text ++ more) = digitAhead text := by
  cases text with
  | nil => exact hmore.digit
  | cons b rest => rfl

theorem pointAhead_append (hmore : Ends more) :
    ((text ++ more).head? == some 0x2E) = (text.head? == some 0x2E) := by
  cases text with
  | nil => exact hmore.point
  | cons b rest => rfl

theorem exponentAhead_append (hmore : Ends more) : exponentAhead (text ++ more) = exponentAhead text := by
  cases text with
  | nil => exact hmore.exponent
  | cons b rest => rfl

/-- No digits are taken from what ends a number. -/
theorem Ends.takeWhile (hmore : Ends more) :
    more.takeWhile isDigit = [] ∧ more.dropWhile isDigit = more := by
  cases more with
  | nil => exact ⟨rfl, rfl⟩
  | cons b rest =>
    have hb : isDigit b = false := hmore.digit
    simp [hb]

theorem takeWhile_append (text : Bytes) (hmore : Ends more) :
    (text ++ more).takeWhile isDigit = text.takeWhile isDigit ∧
      (text ++ more).dropWhile isDigit = text.dropWhile isDigit ++ more := by
  induction text with
  | nil => exact hmore.takeWhile
  | cons b rest ih =>
    rw [List.cons_append, List.takeWhile_cons, List.dropWhile_cons, List.takeWhile_cons,
      List.dropWhile_cons]
    split
    · exact ⟨congrArg (b :: ·) ih.1, ih.2⟩
    · exact ⟨rfl, rfl⟩

theorem length_dropWhile_le (text : Bytes) : (text.dropWhile isDigit).length ≤ text.length :=
  (List.dropWhile_sublist isDigit).length_le

/-- Digits before the point. -/
theorem wholeDigits_takes {digits : Bytes} (h : wholeDigits text = (.ok digits, rest)) :
    Takes wholeDigits skipWhole text digits rest ∧ rest.length < text.length := by
  cases text with
  | nil => cases h
  | cons b tail =>
    simp only [wholeDigits, bind_peek, List.head?_cons, ite_run, bind_skip, List.tail_cons,
      bind_peekIsDigit] at h
    split at h
    · rename_i hzero
      subst hzero
      split at h
      · cases h
      · rename_i hahead
        cases h
        refine ⟨⟨?_, Nat.le_succ _, fun more hmore => ?_⟩, Nat.lt_succ_self _⟩
        · simp [skipWhole, hahead]
        · simp [wholeDigits, digitAhead_append hmore, hahead]
    · rename_i hzero
      split at h
      · rename_i hdigit
        cases h
        have hshorter : ((b :: tail).dropWhile isDigit).length < (b :: tail).length := by
          rw [List.dropWhile_cons_of_pos hdigit]
          exact Nat.lt_succ_of_le (length_dropWhile_le tail)
        refine ⟨⟨?_, Nat.le_of_lt hshorter, fun more hmore => ?_⟩, hshorter⟩
        · have hahead : digitAhead (b :: tail) = true := hdigit
          have hnot : ¬ ((b :: tail).head? == some 0x30) = true := by simpa using hzero
          rw [skipWhole, bind_peek, ite_run, if_neg hnot, bind_peekIsDigit, hahead]
          rfl
        · obtain ⟨htaken, hleft⟩ := takeWhile_append (b :: tail) hmore
          rw [List.cons_append, wholeDigits, bind_peek, List.head?_cons]
          dsimp only
          rw [if_neg hzero, if_pos hdigit, ← List.cons_append, ← htaken, ← hleft]
          rfl
      · cases h

/-- A point and digits behind it, or nothing. -/
theorem fractionDigits_takes {digits : Option Bytes} (h : fractionDigits text = (.ok digits, rest)) :
    Takes fractionDigits skipFraction text digits rest := by
  rw [fractionDigits, bind_peek, ite_run] at h
  split at h
  · rename_i hpoint
    obtain ⟨tail, rfl⟩ : ∃ tail, text = 0x2E :: tail :=
      List.head?_eq_some_iff.mp (eq_of_beq hpoint)
    rw [bind_skip, bind_takeDigits, List.tail_cons, ite_run] at h
    split at h
    · rw [bind_peek] at h
      cases hnext : (tail.dropWhile isDigit).head? <;> rw [hnext] at h <;> cases h
    · rename_i hsome
      cases h
      refine ⟨?_, Nat.le_succ_of_le (length_dropWhile_le tail), fun more hmore => ?_⟩
      · rw [skipFraction, bind_peek, ite_run, if_pos hpoint, bind_skip, bind_takeDigits,
          List.tail_cons, ite_run, if_neg hsome]
        rfl
      · obtain ⟨htaken, hleft⟩ := takeWhile_append tail hmore
        rw [fractionDigits, bind_peek, pointAhead_append hmore, ite_run, if_pos hpoint, bind_skip,
          bind_takeDigits, List.cons_append, List.tail_cons, htaken, hleft, ite_run, if_neg hsome]
        rfl
  · rename_i hpoint
    cases h
    refine ⟨?_, Nat.le_refl _, fun more hmore => ?_⟩
    · rw [skipFraction, bind_peek, ite_run, if_neg hpoint]
      rfl
    · rw [fractionDigits, bind_peek, pointAhead_append hmore, ite_run, if_neg hpoint]
      rfl

/-- What is left behind a sign. -/
def pastSign (text : Bytes) : Bytes :=
  if text.head? == some 0x2B || text.head? == some 0x2D then text.tail else text

@[simp] theorem bind_skipSign (f : Unit → Reader β) : (skipSign >>= f) text = f () (pastSign text) := by
  rw [pastSign]
  split
  · rename_i hsign
    have hrun : skipSign text = (.ok (), text.tail) := by
      rw [skipSign, bind_peek, ite_run, if_pos hsign]
      rfl
    rw [bind_of_ok hrun]
  · rename_i hsign
    have hrun : skipSign text = (.ok (), text) := by
      rw [skipSign, bind_peek, ite_run, if_neg hsign]
      rfl
    rw [bind_of_ok hrun]

/-- A digit behind a sign belongs to the text whatever follows. -/
theorem pastSign_append {d : UInt8} (h : (pastSign text).head? = some d) (more : Bytes) :
    (text ++ more).head? = text.head? ∧ pastSign (text ++ more) = pastSign text ++ more := by
  cases text with
  | nil => cases h
  | cons b tail =>
    refine ⟨rfl, ?_⟩
    unfold pastSign
    by_cases hsign : ((b :: tail).head? == some 0x2B || (b :: tail).head? == some 0x2D) = true
    · rw [if_pos hsign, if_pos (by exact hsign)]
      rfl
    · rw [if_neg hsign, if_neg (by exact hsign)]

theorem length_pastSign_le (text : Bytes) : (pastSign text).length ≤ text.length := by
  unfold pastSign
  split
  · simp
  · exact Nat.le_refl _

/-- The digits of an exponent behind its letter and its sign. -/
theorem exponentDigits_run {e d : UInt8} (hexponent : exponentAhead (e :: mid) = true)
    (hd : (pastSign mid).head? = some d) (hdigit : isDigit d = true) :
    exponentDigits (e :: mid) =
      (.ok (some (mid.head? != some 0x2D, (pastSign mid).takeWhile isDigit)),
        (pastSign mid).dropWhile isDigit) := by
  rw [exponentDigits, bind_peekIsExponent, ite_run, if_pos hexponent, bind_skip, bind_peek,
    bind_skipSign, bind_peek, List.tail_cons, hd]
  dsimp only
  rw [ite_run, if_pos hdigit]
  rfl

/-- An exponent, or nothing. -/
theorem exponentDigits_takes {digits : Option (Bool × Bytes)}
    (h : exponentDigits text = (.ok digits, rest)) :
    Takes exponentDigits skipExponent text digits rest := by
  by_cases hexponent : exponentAhead text = true
  · obtain ⟨e, tail, rfl⟩ : ∃ e tail, text = e :: tail := by
      cases text with
      | nil => cases hexponent
      | cons e tail => exact ⟨e, tail, rfl⟩
    obtain ⟨d, hd, hdigit⟩ : ∃ d, (pastSign tail).head? = some d ∧ isDigit d = true := by
      rw [exponentDigits, bind_peekIsExponent, ite_run, if_pos hexponent, bind_skip, bind_peek,
        bind_skipSign, bind_peek, List.tail_cons] at h
      cases hd : (pastSign tail).head? with
      | none =>
        rw [hd] at h
        cases h
      | some d =>
        rw [hd] at h
        dsimp only at h
        rw [ite_run] at h
        split at h
        · exact ⟨d, rfl, ‹_›⟩
        · cases h
    rw [exponentDigits_run hexponent hd hdigit] at h
    cases h
    have hshorter : ((pastSign tail).dropWhile isDigit).length ≤ tail.length :=
      Nat.le_trans (length_dropWhile_le _) (length_pastSign_le tail)
    refine ⟨?_, Nat.le_succ_of_le hshorter, fun more hmore => ?_⟩
    · have hahead : digitAhead (pastSign tail) = true := by
        rw [digitAhead, hd]
        exact hdigit
      rw [skipExponent, bind_peekIsExponent, ite_run, if_pos hexponent, bind_skip, bind_skipSign,
        bind_peekIsDigit, List.tail_cons, hahead]
      rfl
    · obtain ⟨hsign, hpast⟩ := pastSign_append hd more
      obtain ⟨htaken, hleft⟩ := takeWhile_append (pastSign tail) hmore
      have hagain : exponentAhead (e :: (tail ++ more)) = true := hexponent
      have hsome : (pastSign (tail ++ more)).head? = some d := by
        rw [hpast, List.head?_append, hd, Option.some_or]
      rw [List.cons_append, exponentDigits_run hagain hsome hdigit, hsign, hpast, htaken, hleft]
  · rw [exponentDigits, bind_peekIsExponent, ite_run, if_neg hexponent] at h
    cases h
    refine ⟨?_, Nat.le_refl _, fun more hmore => ?_⟩
    · rw [skipExponent, bind_peekIsExponent, ite_run, if_neg hexponent]
      rfl
    · rw [exponentDigits, bind_peekIsExponent, exponentAhead_append hmore, ite_run, if_neg hexponent]
      rfl

/-- A reader that takes nothing, and gives its result on any text. -/
def Idle (r : Reader α) : Prop :=
  ∀ ⦃text a rest⦄, r text = (.ok a, rest) → rest = text ∧ ∀ other, r other = (.ok a, other)

theorem idle_pure (a : α) : Idle (pure a : Reader α) := by
  intro text b rest h
  cases h
  exact ⟨rfl, fun _ => rfl⟩

theorem idle_stop (e : Fault) : Idle (stop e : Reader α) := by
  intro text b rest h
  cases h

theorem Idle.ite {c : Prop} [Decidable c] {r q : Reader α} (hr : Idle r) (hq : Idle q) :
    Idle (if c then r else q) := by
  split
  · exact hr
  · exact hq

theorem idle_makeDouble (positive : Bool) (significand : Nat) (exponent : Int) :
    Idle (makeDouble positive significand exponent) := by
  unfold makeDouble
  exact .ite (idle_pure _) (.ite (.ite (idle_stop _) (idle_pure _)) (.ite (idle_pure _) (idle_stop _)))

theorem idle_scaled (positive : Bool) (significand : Nat) (starting : Int) :
    ∀ exponent, Idle (scaled positive significand starting exponent)
  | none => idle_makeDouble positive significand starting
  | some (raises, digits) => by
    refine .ite (idle_makeDouble _ _ _) (.ite ?_ (idle_pure _))
    intro text a rest h
    cases h

/-- The value of a number depends on its digits alone. -/
theorem idle_value (positive : Bool) (f : Figures) : Idle (f.value positive) := by
  refine .ite (idle_pure _) ?_
  intro text n rest h
  obtain ⟨x, hx, rfl⟩ := map_eq_ok_iff.mp h
  obtain ⟨rfl, hall⟩ := idle_scaled _ _ _ _ hx
  exact ⟨rfl, fun other => map_eq_ok_iff.mpr ⟨x, hall other, rfl⟩⟩

/-- **A number takes what is passed over as a number**, at least one byte, whatever follows. -/
theorem number_takes {positive : Bool} {n : Number} (h : number positive text = (.ok n, rest)) :
    Takes (number positive) skipNumber text n rest ∧ rest.length < text.length := by
  obtain ⟨f, left, hf, hn⟩ := bind_eq_ok_iff.mp h
  obtain ⟨whole, mid₁, hwhole, hf⟩ := bind_eq_ok_iff.mp hf
  obtain ⟨fraction, mid₂, hfraction, hf⟩ := bind_eq_ok_iff.mp hf
  obtain ⟨exponent, mid₃, hexponent, hf⟩ := bind_eq_ok_iff.mp hf
  cases hf
  obtain ⟨rfl, hvalue⟩ := idle_value positive _ hn
  obtain ⟨hwhole, hless⟩ := wholeDigits_takes hwhole
  have hfraction := fractionDigits_takes hfraction
  have hexponent := exponentDigits_takes hexponent
  have hless : rest.length < text.length :=
    Nat.lt_of_le_of_lt (Nat.le_trans hexponent.shorter hfraction.shorter) hless
  refine ⟨⟨?_, Nat.le_of_lt hless, fun more hmore => ?_⟩, hless⟩
  · rw [skipNumber, bind_of_ok hwhole.passed, bind_of_ok hfraction.passed, hexponent.passed]
  · have hfigures : figures (text ++ more) = (.ok ⟨whole, fraction, exponent⟩, rest ++ more) := by
      rw [figures, bind_of_ok (hwhole.apart more hmore), bind_of_ok (hfraction.apart more hmore),
        bind_of_ok (hexponent.apart more hmore)]
      rfl
    rw [number, bind_of_ok hfigures, hvalue]

/-! ### What is passed over alone -/

theorem discard_takeDigits (text : Bytes) :
    (discard takeDigits : Reader Unit) text = (.ok (), text.dropWhile isDigit) := rfl

theorem skipWhole_shorter (h : skipWhole text = (.ok (), rest)) : rest.length < text.length := by
  rw [skipWhole, bind_peek, ite_run] at h
  split at h
  · rename_i hzero
    obtain ⟨tail, rfl⟩ : ∃ tail, text = 0x30 :: tail := List.head?_eq_some_iff.mp (eq_of_beq hzero)
    rw [bind_skip, bind_peekIsDigit, List.tail_cons, ite_run] at h
    split at h
    · cases h
    · cases h
      exact Nat.lt_succ_self _
  · rw [bind_peekIsDigit, ite_run] at h
    split at h
    · rename_i hdigit
      rw [discard_takeDigits] at h
      cases h
      cases text with
      | nil => cases hdigit
      | cons b tail =>
        have hdigit : isDigit b = true := hdigit
        rw [List.dropWhile_cons_of_pos hdigit]
        exact Nat.lt_succ_of_le (length_dropWhile_le tail)
    · cases h

theorem skipFraction_shorter (h : skipFraction text = (.ok (), rest)) : rest.length ≤ text.length := by
  rw [skipFraction, bind_peek, ite_run] at h
  split at h
  · rw [bind_skip, bind_takeDigits, ite_run] at h
    split at h
    · cases h
    · cases h
      exact Nat.le_trans (length_dropWhile_le _) (by simp)
  · cases h
    exact Nat.le_refl _

theorem skipExponent_shorter (h : skipExponent text = (.ok (), rest)) : rest.length ≤ text.length := by
  rw [skipExponent, bind_peekIsExponent, ite_run] at h
  split at h
  · rw [bind_skip, bind_skipSign, bind_peekIsDigit, ite_run] at h
    split at h
    · rw [discard_takeDigits] at h
      cases h
      exact Nat.le_trans (length_dropWhile_le _) (Nat.le_trans (length_pastSign_le _) (by simp))
    · cases h
  · cases h
    exact Nat.le_refl _

/-- Passing over a number takes a byte at least. -/
theorem skipNumber_shorter (h : skipNumber text = (.ok (), rest)) : rest.length < text.length := by
  obtain ⟨_, mid, hwhole, h⟩ := bind_eq_ok_iff.mp h
  obtain ⟨_, left, hfraction, hexponent⟩ := bind_eq_ok_iff.mp h
  exact Nat.lt_of_le_of_lt (Nat.le_trans (skipExponent_shorter hexponent) (skipFraction_shorter hfraction))
    (skipWhole_shorter hwhole)

end Numbers

/-! ## Strings -/

section Strings

variable {text rest : Bytes}

theorem hexEscape_eq_ok_iff {n : Nat} :
    hexEscape text = (.ok n, rest) ↔
      ∃ a b c d, text = a :: b :: c :: d :: rest ∧ hexNumber? a b c d = some n := by
  constructor
  · intro h
    rcases text with _ | ⟨a, _ | ⟨b, _ | ⟨c, _ | ⟨d, more⟩⟩⟩⟩
    case cons.cons.cons.cons =>
      rw [hexEscape, bind_rest] at h
      dsimp only at h
      rw [bind_setRest] at h
      cases hn : hexNumber? a b c d with
      | none =>
        rw [hn] at h
        cases h
      | some m =>
        rw [hn] at h
        cases h
        exact ⟨a, b, c, d, rfl, hn⟩
    all_goals cases h
  · rintro ⟨a, b, c, d, rfl, hn⟩
    rw [hexEscape, bind_rest]
    dsimp only
    rw [bind_setRest, hn]
    rfl

theorem pairByte_eq_ok_iff {wanted : UInt8} :
    pairByte wanted text = (.ok (), rest) ↔ text = wanted :: rest := by
  cases text with
  | nil => exact ⟨nofun, nofun⟩
  | cons b more =>
    rw [pairByte, bind_next]
    dsimp only [List.head?_cons, List.tail_cons]
    rw [ite_run, List.cons.injEq]
    split
    · rename_i hb
      refine ⟨fun h => ?_, fun h => ?_⟩
      · cases h
        exact ⟨hb, rfl⟩
      · rw [h.2]
        rfl
    · rename_i hb
      exact ⟨nofun, fun h => absurd h.1 hb⟩

/-- Four digits are passed over behind their letter. -/
theorem skipEscape_of_hexEscape {n : Nat} (h : hexEscape text = (.ok n, rest)) :
    skipEscape (0x75 :: text) = (.ok (), rest) ∧ rest.length < (0x75 :: text).length := by
  obtain ⟨a, b, c, d, rfl, -⟩ := hexEscape_eq_ok_iff.mp h
  refine ⟨?_, by simp; omega⟩
  rw [skipEscape, bind_next]
  exact map_eq_ok_iff.mpr ⟨n, h, rfl⟩

/-- **What an escape took is passed over** as one escape, or as two of them: a surrogate pair. -/
def PassedOver (text rest : Bytes) : Prop :=
  ∃ mid, skipEscape text = (.ok (), mid) ∧ mid.length < text.length ∧
    (rest = mid ∨ ∃ more, mid = 0x5C :: more ∧ skipEscape more = (.ok (), rest) ∧
      rest.length < more.length)

theorem unicodeEscape_passed {bytes : Bytes} (h : unicodeEscape text = (.ok bytes, rest)) :
    PassedOver (0x75 :: text) rest := by
  obtain ⟨first, mid, hfirst, h⟩ := bind_eq_ok_iff.mp h
  obtain ⟨hpassed, hless⟩ := skipEscape_of_hexEscape hfirst
  refine ⟨mid, hpassed, hless, ?_⟩
  rw [ite_run] at h
  split at h
  · cases h
  rw [ite_run] at h
  split at h
  · exact .inl (pure_eq_ok_iff.mp h).2.symm
  · -- the second half of a pair is an escape of its own
    obtain ⟨_, _, hslash, h⟩ := bind_eq_ok_iff.mp h
    obtain ⟨_, _, hletter, h⟩ := bind_eq_ok_iff.mp h
    obtain ⟨second, left, hsecond, h⟩ := bind_eq_ok_iff.mp h
    rw [pairByte_eq_ok_iff] at hslash hletter
    rw [ite_run] at h
    split at h
    · cases h
    · obtain ⟨-, rfl⟩ := pure_eq_ok_iff.mp h
      exact .inr ⟨_, hslash, hletter ▸ skipEscape_of_hexEscape hsecond⟩

theorem escape_passed {bytes : Bytes} (h : escape text = (.ok bytes, rest)) : PassedOver text rest := by
  cases text with
  | nil => cases h
  | cons b tail =>
    rw [escape, bind_next] at h
    dsimp only [List.head?_cons, List.tail_cons] at h
    rw [ite_run] at h
    split at h
    · rename_i hu
      subst hu
      exact unicodeEscape_passed h
    · rename_i hu
      cases hc : simpleEscape? b with
      | none =>
        rw [hc] at h
        cases h
      | some c =>
        rw [hc] at h
        cases h
        refine ⟨_, ?_, Nat.lt_succ_self _, .inl rfl⟩
        rw [skipEscape, bind_next]
        dsimp only [List.head?_cons, List.tail_cons]
        rw [if_neg hu, hc]
        rfl

theorem skipString_quote {tail : Bytes} (h : text.dropWhile isPlain = 0x22 :: tail) (fuel : Nat) :
    skipString (fuel + 1) text = (.ok (), tail) := by
  rw [skipString, bind_rest, bind_setRest, h]
  rfl

theorem skipString_escape {tail mid : Bytes} (h : text.dropWhile isPlain = 0x5C :: tail)
    (hescape : skipEscape tail = (.ok (), mid)) (fuel : Nat) :
    skipString (fuel + 1) text = skipString fuel mid := by
  rw [skipString, bind_rest, bind_setRest, h, bind_peek]
  dsimp only [List.head?_cons]
  rw [if_neg (by decide), if_pos rfl, bind_skip, List.tail_cons, bind_of_ok hescape]

/-- **A string takes what is passed over as a string**, at least one byte. -/
theorem skipString_of_stringBytes {fuel : Nat} {before bytes : Bytes}
    (h : stringBytes fuel before text = (.ok bytes, rest)) :
    rest.length < text.length ∧
      ∀ turns, text.length < turns → skipString turns text = (.ok (), rest) := by
  induction fuel generalizing before text with
  | zero => cases h
  | succ fuel ih =>
    have hle : (text.dropWhile isPlain).length ≤ text.length :=
      (List.dropWhile_sublist isPlain).length_le
    rw [stringBytes, bind_rest, bind_setRest, bind_next] at h
    cases hleft : text.dropWhile isPlain with
    | nil =>
      rw [hleft] at h
      cases h
    | cons b tail =>
      rw [hleft] at h hle
      dsimp only [List.head?_cons, List.tail_cons] at h
      rw [ite_run] at h
      split at h
      · rename_i hquote
        subst hquote
        obtain ⟨-, rfl⟩ := pure_eq_ok_iff.mp h
        refine ⟨hle, fun turns hturns => ?_⟩
        obtain ⟨n, rfl⟩ : ∃ n, turns = n + 1 := ⟨turns - 1, by omega⟩
        exact skipString_quote hleft n
      rw [ite_run] at h
      split at h
      · rename_i hslash
        subst hslash
        obtain ⟨escaped, left, hescape, h⟩ := bind_eq_ok_iff.mp h
        obtain ⟨hless, hskips⟩ := ih h
        obtain ⟨mid, hmid, hshorter, hpair⟩ := escape_passed hescape
        rw [List.length_cons] at hle
        rcases hpair with rfl | ⟨more, rfl, hmore, hlast⟩
        · refine ⟨by omega, fun turns hturns => ?_⟩
          obtain ⟨n, rfl⟩ : ∃ n, turns = n + 1 := ⟨turns - 1, by omega⟩
          rw [skipString_escape hleft hmid]
          exact hskips n (by omega)
        · rw [List.length_cons] at hshorter
          refine ⟨by omega, fun turns hturns => ?_⟩
          obtain ⟨n, rfl⟩ : ∃ n, turns = n + 2 := ⟨turns - 2, by omega⟩
          have hagain : (0x5C :: more).dropWhile isPlain = 0x5C :: more :=
            List.dropWhile_cons_of_neg (by decide)
          rw [skipString_escape hleft hmid, skipString_escape hagain hmore]
          exact hskips n (by omega)
      · cases h

theorem skipString_of_stringRest {s : String} (h : stringRest text = (.ok s, rest)) :
    rest.length < text.length ∧
      ∀ turns, text.length < turns → skipString turns text = (.ok (), rest) := by
  rw [stringRest, bind_rest] at h
  obtain ⟨bytes, left, hbytes, h⟩ := bind_eq_ok_iff.mp h
  cases hs : Utf8.decode? bytes with
  | none =>
    rw [hs] at h
    cases h
  | some t =>
    rw [hs] at h
    obtain ⟨-, rfl⟩ := pure_eq_ok_iff.mp h
    exact skipString_of_stringBytes hbytes

theorem skipEscape_shorter (h : skipEscape text = (.ok (), rest)) : rest.length < text.length := by
  cases text with
  | nil => cases h
  | cons b tail =>
    rw [skipEscape, bind_next] at h
    dsimp only [List.head?_cons, List.tail_cons] at h
    rw [ite_run] at h
    split at h
    · obtain ⟨n, hn, -⟩ := map_eq_ok_iff.mp h
      obtain ⟨_, _, _, _, rfl, -⟩ := hexEscape_eq_ok_iff.mp hn
      simp
      omega
    · rw [ite_run] at h
      split at h
      · cases h
      · cases h
        exact Nat.lt_succ_self _

/-- Passing over a string takes a byte at least. -/
theorem skipString_shorter {turns : Nat} (h : skipString turns text = (.ok (), rest)) :
    rest.length < text.length := by
  induction turns generalizing text with
  | zero => cases h
  | succ turns ih =>
    have hle : (text.dropWhile isPlain).length ≤ text.length :=
      (List.dropWhile_sublist isPlain).length_le
    rw [skipString, bind_rest, bind_setRest, bind_peek] at h
    cases hleft : text.dropWhile isPlain with
    | nil =>
      rw [hleft] at h
      cases h
    | cons b tail =>
      rw [hleft] at h hle
      rw [List.length_cons] at hle
      dsimp only [List.head?_cons] at h
      rw [ite_run] at h
      split at h
      · cases h
        exact hle
      rw [ite_run] at h
      split at h
      · rw [bind_skip, List.tail_cons] at h
        obtain ⟨_, left, hescape, h⟩ := bind_eq_ok_iff.mp h
        exact Nat.lt_trans (ih h) (Nat.lt_of_lt_of_le (skipEscape_shorter hescape) (Nat.le_of_lt hle))
      · cases h

end Strings

/-! ## Whole texts -/

/-- Blanks may be left of a whole text. -/
theorem run_of_ok {r : Reader α} {text rest : Bytes} {a : α} (h : r text = (.ok a, rest))
    (hrest : rest.dropWhile isBlank = []) : r.run text = .ok a := by
  have hwhole : (do
      let a ← r
      if (← peekPastBlanks).isSome then stopAhead .trailingCharacters
      return a : Reader α) text = (.ok a, []) := by
    rw [bind_of_ok h, bind_peekPastBlanks, hrest]
    rfl
  rw [Reader.run, placing_of_ok hwhole]

/-- Nothing but blanks is left of a whole text. -/
theorem run_eq_ok {r : Reader α} {text : Bytes} {a : α} (h : r.run text = .ok a) :
    ∃ rest, r text = (.ok a, rest) ∧ rest.dropWhile isBlank = [] := by
  unfold run at h
  dsimp only at h
  split at h
  · rename_i b hb
    cases h
    obtain ⟨b, rest, hr, hrest⟩ := bind_eq_ok_iff.mp (placing_eq_ok_iff.mp (Prod.ext hb rfl))
    rw [bind_peekPastBlanks] at hrest
    rw [ite_run] at hrest
    split at hrest
    · obtain ⟨_, _, hstop, -⟩ := bind_eq_ok_iff.mp hrest
      cases hstop
    · rename_i hnone
      obtain ⟨rfl, -⟩ := pure_eq_ok_iff.mp hrest
      exact ⟨rest, hr, by simpa using hnone⟩
  · cases h

end WatchedStore.Json.Reader
