import WatchedStore.Proofs.Text.Numeral

/-!
# Which texts are counters

A counter is read from a sign or none and at least one digit (`Numeral.Spells`), and from nothing else:
no blanks, no other bytes, no digits whose value leaves the range of 64-bit integers. It is written in
one of the forms that can be read, the plain one (`Numeral.Plain`): no plus sign, no zeros in front, and no
negative zero.

**The law** (`codec_exact`): reading succeeds exactly with the integer that a text spells, and fails
otherwise with an error that names the key; what is written is plain and is read as itself; and of the
texts that spell an integer just the plain one is what is written of it.

Reading stops at the first digit that exceeds the limit. That this refuses no text that fits, and lets
none pass that does not, is because the value only grows along the digits (`le_digitsValue`).
-/

namespace WatchedStore

namespace Numeral

/-! ## Numerals -/

/-- A decimal digit. -/
def IsDigit (b : UInt8) : Prop := 0x30 ≤ b ∧ b ≤ 0x39

/-- At least one digit, and nothing else. -/
def Digits (bytes : Bytes) : Prop := bytes ≠ [] ∧ ∀ b ∈ bytes, IsDigit b

/-- **The value of digits**, with others of this value in front of them. -/
def digitsValue (front : Nat) (digits : Bytes) : Nat :=
  digits.foldl (fun value d => value * 10 + (d.toNat - 0x30)) front

/-- **The integer that a text spells**: digits, with a sign or without. -/
inductive Spells : Bytes → Int → Prop
  | unsigned {digits : Bytes} (h : Digits digits) : Spells digits (digitsValue 0 digits)
  | plus {digits : Bytes} (h : Digits digits) : Spells (0x2B :: digits) (digitsValue 0 digits)
  | minus {digits : Bytes} (h : Digits digits) : Spells (0x2D :: digits) (-(digitsValue 0 digits : Int))

/-- **A plain text of an integer**: no plus sign, no zero in front of other digits, no negative zero. -/
inductive Plain : Bytes → Prop
  | zero : Plain [0x30]
  | positive {first : UInt8} {rest : Bytes} (hfirst : first ≠ 0x30) (h : Digits (first :: rest)) :
    Plain (first :: rest)
  | negative {first : UInt8} {rest : Bytes} (hfirst : first ≠ 0x30) (h : Digits (first :: rest)) :
    Plain (0x2D :: first :: rest)

theorem IsDigit.toNat {b : UInt8} (h : IsDigit b) : 48 ≤ b.toNat ∧ b.toNat ≤ 57 :=
  ⟨UInt8.le_iff_toNat_le.mp h.1, UInt8.le_iff_toNat_le.mp h.2⟩

/-- No sign is a digit. -/
theorem IsDigit.ne_sign {b : UInt8} (h : IsDigit b) : b ≠ 0x2B ∧ b ≠ 0x2D := by
  constructor
  · rintro rfl
    exact absurd h.1 (by decide)
  · rintro rfl
    exact absurd h.1 (by decide)

theorem digit?_eq_some_iff {b : UInt8} {d : Nat} :
    digit? b = some d ↔ IsDigit b ∧ d = b.toNat - 0x30 := by
  unfold digit? IsDigit
  split
  · rename_i h
    simp only [Bool.and_eq_true, decide_eq_true_eq] at h
    simp only [Option.some.injEq, h, and_self, true_and]
    exact eq_comm
  · rename_i h
    simp only [Bool.and_eq_true, decide_eq_true_eq] at h
    simp only [h, false_and, reduceCtorEq]

theorem le_digitsValue (digits : Bytes) (front : Nat) : front ≤ digitsValue front digits := by
  induction digits generalizing front with
  | nil => exact Nat.le_refl front
  | cons d rest ih => exact Nat.le_trans (by omega) (ih (front * 10 + (d.toNat - 0x30)))

/-! ## Reading -/

section Reading

variable {limit : Nat} {excess : Refusal} {digits : Bytes} {m : Nat}

/-- **Digits are read exactly if there are no other bytes and their value keeps to the limit.** -/
theorem readDigits_eq_ok_iff {front : Nat} (hfront : front ≤ limit) :
    readDigits limit excess front digits = .ok m ↔
      (∀ b ∈ digits, IsDigit b) ∧ digitsValue front digits = m ∧ m ≤ limit := by
  induction digits generalizing front with
  | nil =>
    simp only [readDigits, Except.ok.injEq, List.not_mem_nil, false_implies, implies_true, true_and]
    exact ⟨fun h => ⟨h, h ▸ hfront⟩, And.left⟩
  | cons b rest ih =>
    rw [readDigits, List.forall_mem_cons]
    cases hd : digit? b with
    | none =>
      have hnot : ¬ IsDigit b := fun h => by rw [digit?_eq_some_iff.mpr ⟨h, rfl⟩] at hd; cases hd
      simp only [hnot, false_and, reduceCtorEq]
    | some d =>
      obtain ⟨hdigit, rfl⟩ := digit?_eq_some_iff.mp hd
      have hvalue : digitsValue front (b :: rest) =
          digitsValue (front * 10 + (b.toNat - 0x30)) rest := rfl
      dsimp only
      split
      · rename_i hle
        rw [ih hle, hvalue]
        simp only [hdigit, true_and]
      · -- what is read so far exceeds the limit, and so will the whole
        rename_i hnot
        have hgrows := le_digitsValue rest (front * 10 + (b.toNat - 0x30))
        rw [← hvalue] at hgrows
        refine ⟨fun h => (by cases h), ?_⟩
        rintro ⟨-, rfl, hle⟩
        exact absurd (Nat.le_trans hgrows hle) hnot

theorem readMagnitude_eq_ok_iff :
    readMagnitude limit excess digits = .ok m ↔
      Digits digits ∧ digitsValue 0 digits = m ∧ m ≤ limit := by
  cases digits with
  | nil => simp only [readMagnitude, Digits, reduceCtorEq, ne_eq, not_true, false_and]
  | cons b rest =>
    have hne : b :: rest ≠ [] := List.cons_ne_nil b rest
    rw [readMagnitude, readDigits_eq_ok_iff (Nat.zero_le limit)]
    · simp only [Digits, hne, ne_eq, not_false_eq_true, true_and]
    · exact hne

/-- The digits of a number, and their value. -/
theorem digits_toDigits (m : Nat) :
    Digits (Bytes.ofAscii (Nat.toDigits 10 m)) ∧
      digitsValue 0 (Bytes.ofAscii (Nat.toDigits 10 m)) = m := by
  have hread : readMagnitude m .tooLarge (Bytes.ofAscii (Nat.toDigits 10 m)) = .ok m :=
    readMagnitude_toDigits (Nat.le_refl m)
  obtain ⟨hdigits, hvalue, -⟩ := readMagnitude_eq_ok_iff.mp hread
  exact ⟨hdigits, hvalue⟩

theorem map_eq_ok_iff {f : Nat → Int64} {r : Except Refusal Nat} {n : Int64} :
    f <$> r = .ok n ↔ ∃ m, r = .ok m ∧ f m = n := by
  cases r with
  | error e => simp only [Functor.map, Except.map, reduceCtorEq, false_and, exists_false]
  | ok m => simp only [Functor.map, Except.map, Except.ok.injEq, exists_eq_left']

/-- Digits without a minus sign. -/
theorem readPositive_eq_ok_iff {n : Int64} :
    Int64.ofNat <$> readMagnitude 0x7FFFFFFFFFFFFFFF .tooLarge digits = .ok n ↔
      Digits digits ∧ (digitsValue 0 digits : Int) = n.toInt := by
  simp only [map_eq_ok_iff, readMagnitude_eq_ok_iff]
  constructor
  · rintro ⟨m, ⟨hdigits, rfl, hle⟩, rfl⟩
    exact ⟨hdigits, (Int64.toInt_ofNat_of_lt (by omega)).symm⟩
  · rintro ⟨hdigits, hvalue⟩
    have hhigh := Int64.toInt_lt n
    refine ⟨_, ⟨hdigits, rfl, by omega⟩, ?_⟩
    rw [← Int64.toInt_inj, Int64.toInt_ofNat_of_lt (by omega), hvalue]

/-- Digits behind a minus sign, which reach one further. -/
theorem readNegative_eq_ok_iff {n : Int64} :
    readSigned (0x2D :: digits) = .ok n ↔
      Digits digits ∧ -(digitsValue 0 digits : Int) = n.toInt := by
  have hread : readSigned (0x2D :: digits) =
      (fun m : Nat => Int64.ofInt (-(m : Int))) <$>
        readMagnitude 0x8000000000000000 .tooSmall digits := by
    rw [readSigned]
    cases readMagnitude 0x8000000000000000 .tooSmall digits <;> rfl
  simp only [hread, map_eq_ok_iff, readMagnitude_eq_ok_iff]
  constructor
  · rintro ⟨m, ⟨hdigits, rfl, hle⟩, rfl⟩
    exact ⟨hdigits, (Int64.toInt_ofInt_of_le (by omega) (by omega)).symm⟩
  · rintro ⟨hdigits, hvalue⟩
    have hlow := Int64.le_toInt n
    refine ⟨_, ⟨hdigits, rfl, by omega⟩, ?_⟩
    rw [← Int64.toInt_inj, Int64.toInt_ofInt_of_le (by omega) (by omega), hvalue]

end Reading

/-- **Reading gives the integer that a text spells**, and gives none if there is none of 64 bits. -/
theorem readSigned_eq_ok_iff {bytes : Bytes} {n : Int64} :
    readSigned bytes = .ok n ↔ Spells bytes n.toInt := by
  constructor
  · intro h
    unfold readSigned at h
    split at h
    · cases h
    · obtain ⟨hdigits, hvalue⟩ := readPositive_eq_ok_iff.mp h
      exact hvalue ▸ .plus hdigits
    · obtain ⟨hdigits, hvalue⟩ := readNegative_eq_ok_iff.mp h
      exact hvalue ▸ .minus hdigits
    · obtain ⟨hdigits, hvalue⟩ := readPositive_eq_ok_iff.mp h
      exact hvalue ▸ .unsigned hdigits
  · intro h
    generalize hn : n.toInt = value at h
    cases h with
    | plus hdigits => exact readPositive_eq_ok_iff.mpr ⟨hdigits, hn.symm⟩
    | minus hdigits => exact readNegative_eq_ok_iff.mpr ⟨hdigits, hn.symm⟩
    | unsigned hdigits =>
      have hread := readPositive_eq_ok_iff.mpr ⟨hdigits, hn.symm⟩
      unfold readSigned
      split
      · exact absurd rfl hdigits.1
      · exact absurd rfl (hdigits.2 _ List.mem_cons_self).ne_sign.1
      · exact absurd rfl (hdigits.2 _ List.mem_cons_self).ne_sign.2
      · exact hread

theorem encode_natCast (m : Nat) : encode (m : Int) = Bytes.ofAscii (Nat.toDigits 10 m) := by
  rw [encode, characters, if_neg (by omega), Int.natAbs_natCast]

/-- An unsigned integer that is written is read as itself. -/
theorem readUnsigned_encode (n : UInt64) : readUnsigned (encode (n.toNat : Int)) = .ok n := by
  have hread : readMagnitude 0xFFFFFFFFFFFFFFFF .tooLarge
      (Bytes.ofAscii (Nat.toDigits 10 n.toNat)) = .ok n.toNat :=
    readMagnitude_toDigits (Nat.le_of_lt_succ n.toNat_lt)
  obtain ⟨hne, hdigits⟩ := (digits_toDigits n.toNat).1
  rw [encode_natCast]
  unfold readUnsigned
  split
  · exact absurd ‹_› hne
  · exact absurd rfl (hdigits _ (‹_ = _› ▸ List.mem_cons_self)).ne_sign.1
  · rw [hread]
    exact congrArg Except.ok UInt64.ofNat_toNat

/-! ## Plain texts -/

theorem ofAscii_digitChar {b : UInt8} (h : IsDigit b) :
    Bytes.ofAscii [Nat.digitChar (b.toNat - 0x30)] = [b] := by
  obtain ⟨hlow, hhigh⟩ := h.toNat
  have hbyte : 48 + (b.toNat - 0x30) = b.toNat := by omega
  rw [Bytes.ofAscii, List.map_singleton, Nat.toNat_digitChar_of_lt_ten (by omega), hbyte,
    Nat.toUInt8, UInt8.ofNat_toNat]

/-- Digits behind those of a positive number are those of the whole number. -/
theorem toDigits_append {digits : Bytes} {front : Nat} (hfront : 0 < front)
    (h : ∀ b ∈ digits, IsDigit b) :
    Bytes.ofAscii (Nat.toDigits 10 front) ++ digits =
      Bytes.ofAscii (Nat.toDigits 10 (digitsValue front digits)) := by
  induction digits generalizing front with
  | nil => exact List.append_nil _
  | cons b rest ih =>
    obtain ⟨hb, hrest⟩ := List.forall_mem_cons.mp h
    obtain ⟨-, hhigh⟩ := hb.toNat
    have hlt : b.toNat - 0x30 < 10 := by omega
    have hnext : Bytes.ofAscii (Nat.toDigits 10 front) ++ [b] =
        Bytes.ofAscii (Nat.toDigits 10 (front * 10 + (b.toNat - 0x30))) := by
      rw [Nat.mul_comm, ← Nat.toDigits_append_toDigits (by decide) hfront hlt,
        Nat.toDigits_of_lt_base hlt, Bytes.ofAscii, Bytes.ofAscii, List.map_append]
      exact congrArg _ (ofAscii_digitChar hb).symm
    rw [← List.singleton_append, ← List.append_assoc, hnext]
    exact ih (by omega) hrest

/-- Digits without a zero in front are those of their value. -/
theorem toDigits_digitsValue {first : UInt8} {rest : Bytes} (hfirst : first ≠ 0x30)
    (h : Digits (first :: rest)) :
    Bytes.ofAscii (Nat.toDigits 10 (digitsValue 0 (first :: rest))) = first :: rest ∧
      0 < digitsValue 0 (first :: rest) := by
  obtain ⟨hdigit, hrest⟩ := List.forall_mem_cons.mp h.2
  obtain ⟨hlow, hhigh⟩ := hdigit.toNat
  have hne : first.toNat ≠ 0x30 := fun heq => hfirst (UInt8.toNat_inj.mp heq)
  have hvalue : digitsValue 0 (first :: rest) = digitsValue (first.toNat - 0x30) rest := by
    simp only [digitsValue, List.foldl_cons, Nat.zero_mul, Nat.zero_add]
  have hpos : 0 < first.toNat - 0x30 := by omega
  refine ⟨?_, hvalue ▸ Nat.lt_of_lt_of_le hpos (le_digitsValue rest _)⟩
  rw [hvalue, ← toDigits_append hpos hrest, Nat.toDigits_of_lt_base (by omega),
    ofAscii_digitChar hdigit, List.singleton_append]

/-- The digits of a positive number do not begin with a zero. -/
theorem first_toDigits {m : Nat} (h : 0 < m) :
    ∃ first rest, Bytes.ofAscii (Nat.toDigits 10 m) = first :: rest ∧ first ≠ 0x30 := by
  induction m using Nat.strongRecOn with
  | ind m ih =>
    rw [Nat.toDigits_eq_if (by decide)]
    split
    · rename_i hlt
      refine ⟨m.digitChar.toNat.toUInt8, [], rfl, fun heq => ?_⟩
      have hbyte := congrArg UInt8.toNat heq
      rw [Nat.toNat_digitChar_of_lt_ten hlt, Nat.toUInt8, UInt8.toNat_ofNat'] at hbyte
      have hzero : (0x30 : UInt8).toNat = 48 := rfl
      omega
    · obtain ⟨first, rest, heq, hne⟩ := ih (m / 10) (by omega) (by omega)
      refine ⟨first, rest ++ Bytes.ofAscii [(m % 10).digitChar], ?_, hne⟩
      rw [Bytes.ofAscii, List.map_append, ← List.cons_append, ← heq]
      rfl

/-- **What is written is plain.** -/
theorem plain_encode (n : Int) : Plain (encode n) := by
  unfold encode characters
  split
  · obtain ⟨first, rest, heq, hne⟩ := first_toDigits (m := n.natAbs) (by omega)
    have hbytes : Bytes.ofAscii ('-' :: Nat.toDigits 10 n.natAbs) = 0x2D :: first :: rest :=
      congrArg (0x2D :: ·) heq
    rw [hbytes]
    exact .negative hne (heq ▸ (digits_toDigits n.natAbs).1)
  · rcases Nat.eq_zero_or_pos n.natAbs with hzero | hpos
    · rw [hzero]
      exact .zero
    · obtain ⟨first, rest, heq, hne⟩ := first_toDigits hpos
      rw [heq]
      exact .positive hne (heq ▸ (digits_toDigits n.natAbs).1)

/-- **A plain text is what is written of the integer that it spells.** -/
theorem encode_of_plain {bytes : Bytes} {n : Int} (hplain : Plain bytes) (hspells : Spells bytes n) :
    encode n = bytes := by
  cases hplain with
  | zero =>
    cases hspells with
    | unsigned => rfl
  | @positive first rest hfirst h =>
    have hsign := (h.2 first List.mem_cons_self).ne_sign
    cases hspells with
    | unsigned => exact (encode_natCast _).trans (toDigits_digitsValue hfirst h).1
    | plus => exact absurd rfl hsign.1
    | minus => exact absurd rfl hsign.2
  | @negative first rest hfirst h =>
    cases hspells with
    | unsigned hdigits => exact absurd rfl (hdigits.2 _ List.mem_cons_self).ne_sign.2
    | minus =>
      obtain ⟨hbytes, hpos⟩ := toDigits_digitsValue hfirst h
      rw [encode, characters, if_pos (by omega), Int.natAbs_neg, Int.natAbs_natCast]
      exact congrArg (0x2D :: ·) hbytes

end Numeral

namespace Counter

open Numeral

theorem decode_eq_ok_iff {key : String} {bytes : Bytes} {n : Int64} :
    decode key bytes = .ok n ↔ Spells bytes n.toInt := by
  rw [← readSigned_eq_ok_iff, decode_eq_readSigned]
  cases readSigned bytes with
  | ok m => simp only [Except.ok.injEq]
  | error refusal => simp only [reduceCtorEq]

/-- **The text of a counter is exact**, under any key. Reading it gives the integer that it spells, if
that has 64 bits, and otherwise an error that names the key; what is written of an integer is plain and is
read as this integer; and what is read is written as it was exactly if it was plain. -/
theorem codec_exact (key : String) :
    (∀ bytes n, decode key bytes = .ok n ↔ Spells bytes n.toInt) ∧
      (∀ bytes, (∀ n : Int64, ¬ Spells bytes n.toInt) →
        decode key bytes = .error (.malformedInteger key (Utf8.decodeLossy bytes))) ∧
      (∀ n, Plain (encode n) ∧ decode key (encode n) = .ok n) ∧
      ∀ bytes n, decode key bytes = .ok n → (encode n = bytes ↔ Plain bytes) := by
  refine ⟨fun _ _ => decode_eq_ok_iff, fun bytes hnone => ?_,
    fun n => ⟨plain_encode n.toInt, decode_encode key n⟩, fun bytes n hread => ⟨?_, fun hplain => ?_⟩⟩
  · cases hread : readSigned bytes with
    | ok n => exact absurd (readSigned_eq_ok_iff.mp hread) (hnone n)
    | error refusal => rw [decode_eq_readSigned, hread]
  · rintro rfl
    exact plain_encode n.toInt
  · exact encode_of_plain hplain (decode_eq_ok_iff.mp hread)

/-- Zeros in front are read, and are not written. -/
example : decode "n" [0x2D, 0x30, 0x37] = .ok (-7) ∧ encode (-7) = [0x2D, 0x37] :=
  ⟨rfl, rfl⟩

end Counter

end WatchedStore
