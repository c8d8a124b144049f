import WatchedStore.Counter.Codec
import WatchedStore.Proofs.Text.Utf8

/-!
# Integers survive being written

What is written of a 64-bit integer is read as this integer (`readSigned_encode`). Reading stops as soon
as the value so far exceeds the limit, so the proof has to know that the value only grows along the
digits (`le_ofDigitChars`).

Signs and digits are text, whatever else the bytes of a counter may be. So looking whether they are text
before they are read makes no difference (`decode_eq_readSigned`).
-/

namespace WatchedStore

namespace Numeral

theorem digit?_ofChar {c : Char} (h : c.isDigit = true) :
    digit? c.toNat.toUInt8 = some (c.toNat - '0'.toNat) := by
  have hrange : 48 ≤ c.toNat ∧ c.toNat ≤ 57 := Char.isDigit_iff_toNat.mp h
  have hbyte : c.toNat.toUInt8.toNat = c.toNat := by
    rw [Nat.toUInt8, UInt8.toNat_ofNat']
    omega
  have hlow : (0x30 : UInt8) ≤ c.toNat.toUInt8 := by
    rw [UInt8.le_iff_toNat_le, hbyte]
    exact hrange.1
  have hhigh : c.toNat.toUInt8 ≤ (0x39 : UInt8) := by
    rw [UInt8.le_iff_toNat_le, hbyte]
    exact hrange.2
  rw [digit?, hbyte]
  simp [hlow, hhigh]

theorem le_ofDigitChars (cs : List Char) (acc : Nat) : acc ≤ Nat.ofDigitChars 10 cs acc := by
  induction cs generalizing acc with
  | nil => exact Nat.le_of_eq Nat.ofDigitChars_nil.symm
  | cons c rest ih =>
    rw [Nat.ofDigitChars_cons]
    exact Nat.le_trans (by omega) (ih _)

/-- Digits are read as their value, if that does not exceed the limit. -/
theorem readDigits_ofAscii {limit : Nat} {excess : Refusal} {cs : List Char} {acc : Nat}
    (hdigits : ∀ c ∈ cs, c.isDigit = true) (hlimit : Nat.ofDigitChars 10 cs acc ≤ limit) :
    readDigits limit excess acc (Bytes.ofAscii cs) = .ok (Nat.ofDigitChars 10 cs acc) := by
  induction cs generalizing acc with
  | nil => rw [Nat.ofDigitChars_nil]; rfl
  | cons c rest ih =>
    rw [Nat.ofDigitChars_cons] at hlimit ⊢
    rw [Nat.mul_comm 10 acc] at hlimit ⊢
    have hnow := Nat.le_trans (le_ofDigitChars rest _) hlimit
    have hbytes : Bytes.ofAscii (c :: rest) = c.toNat.toUInt8 :: Bytes.ofAscii rest := rfl
    rw [hbytes, readDigits, digit?_ofChar (hdigits c List.mem_cons_self)]
    dsimp only
    rw [if_pos hnow]
    exact ih (fun d hd => hdigits d (List.mem_cons_of_mem c hd)) hlimit

/-- The digits of a number are read as the number, if that does not exceed the limit. -/
theorem readMagnitude_toDigits {limit : Nat} {excess : Refusal} {n : Nat} (h : n ≤ limit) :
    readMagnitude limit excess (Bytes.ofAscii (Nat.toDigits 10 n)) = .ok n := by
  have hdigits : ∀ c ∈ Nat.toDigits 10 n, c.isDigit = true := fun c hc =>
    Nat.isDigit_of_mem_toDigits (by decide) (by decide) hc
  have hvalue : Nat.ofDigitChars 10 (Nat.toDigits 10 n) 0 = n := Nat.ofDigitChars_ten_toDigits
  have hread : readDigits limit excess 0 (Bytes.ofAscii (Nat.toDigits 10 n)) = _ :=
    readDigits_ofAscii hdigits (hvalue.symm ▸ h)
  cases hcs : Nat.toDigits 10 n with
  | nil => exact absurd hcs Nat.toDigits_ne_nil
  | cons c rest =>
    rw [hvalue, hcs] at hread
    exact hread

theorem readSigned_toDigits (m : Nat) :
    readSigned (Bytes.ofAscii (Nat.toDigits 10 m)) =
      Int64.ofNat <$>
        readMagnitude 0x7FFFFFFFFFFFFFFF .tooLarge (Bytes.ofAscii (Nat.toDigits 10 m)) := by
  cases hcs : Nat.toDigits 10 m with
  | nil => exact absurd hcs Nat.toDigits_ne_nil
  | cons c rest =>
    have hmem : c ∈ Nat.toDigits 10 m := hcs ▸ List.mem_cons_self
    have hdigit : c.isDigit = true := Nat.isDigit_of_mem_toDigits (by decide) (by decide) hmem
    have hvalue := digit?_ofChar hdigit
    have hbytes : Bytes.ofAscii (c :: rest) = c.toNat.toUInt8 :: Bytes.ofAscii rest := rfl
    rw [hbytes]
    -- neither sign is a digit
    have hplus : c.toNat.toUInt8 ≠ 0x2B := fun h => by rw [h] at hvalue; cases hvalue
    have hminus : c.toNat.toUInt8 ≠ 0x2D := fun h => by rw [h] at hvalue; cases hvalue
    generalize c.toNat.toUInt8 = b at hplus hminus
    unfold readSigned
    split
    · rename_i h
      cases h
    · rename_i h
      cases h
      exact absurd rfl hplus
    · rename_i h
      cases h
      exact absurd rfl hminus
    · rfl

/-- **A 64-bit integer that is written is read as itself.** -/
theorem readSigned_encode (n : Int64) : readSigned (encode n.toInt) = .ok n := by
  have hlow := Int64.le_toInt n
  have hhigh := Int64.toInt_lt n
  unfold encode characters
  split
  · rename_i hneg
    have hfits : n.toInt.natAbs ≤ 0x8000000000000000 := by omega
    have hbytes : Bytes.ofAscii ('-' :: Nat.toDigits 10 n.toInt.natAbs) =
        0x2D :: Bytes.ofAscii (Nat.toDigits 10 n.toInt.natAbs) := rfl
    have habs : -(n.toInt.natAbs : Int) = n.toInt := by omega
    rw [hbytes, readSigned, readMagnitude_toDigits hfits]
    exact congrArg Except.ok ((congrArg Int64.ofInt habs).trans (Int64.ofInt_toInt n))
  · rename_i hneg
    have hfits : n.toInt.natAbs ≤ 0x7FFFFFFFFFFFFFFF := by omega
    have habs : (n.toInt.natAbs : Int) = n.toInt := by omega
    rw [readSigned_toDigits, readMagnitude_toDigits hfits]
    have hofNat : Int64.ofNat n.toInt.natAbs = n := by
      rw [← Int64.ofInt_eq_ofNat, habs, Int64.ofInt_toInt]
    exact congrArg Except.ok hofNat

/-! ## Numerals are text -/

theorem lt_of_digit? {b : UInt8} {d : Nat} (h : digit? b = some d) : b < 0x80 := by
  unfold digit? at h
  split at h
  · rename_i hrange
    rw [Bool.and_eq_true, decide_eq_true_eq, decide_eq_true_eq] at hrange
    exact Nat.lt_of_le_of_lt hrange.2 (by decide)
  · cases h

theorem readDigits_ascii {limit : Nat} {excess : Refusal} {acc m : Nat} {bytes : Bytes}
    (h : readDigits limit excess acc bytes = .ok m) : ∀ b ∈ bytes, b < 0x80 := by
  induction bytes generalizing acc with
  | nil => exact fun _ hb => absurd hb List.not_mem_nil
  | cons b rest ih =>
    rw [readDigits] at h
    split at h
    · cases h
    · rename_i d hd
      split at h
      · exact List.forall_mem_cons.mpr ⟨lt_of_digit? hd, ih h⟩
      · cases h

theorem readMagnitude_ascii {limit : Nat} {excess : Refusal} {bytes : Bytes}
    (h : ∀ refusal, readMagnitude limit excess bytes ≠ .error refusal) : ∀ b ∈ bytes, b < 0x80 := by
  cases hread : readMagnitude limit excess bytes with
  | error refusal => exact absurd hread (h refusal)
  | ok m =>
    cases bytes with
    | nil => exact fun _ hb => absurd hb List.not_mem_nil
    | cons b rest => exact readDigits_ascii hread

theorem readSigned_ascii {bytes : Bytes} {n : Int64} (h : readSigned bytes = .ok n) :
    ∀ b ∈ bytes, b < 0x80 := by
  unfold readSigned at h
  split at h
  · cases h
  · exact List.forall_mem_cons.mpr
      ⟨by decide, readMagnitude_ascii fun refusal hread => by rw [hread] at h; cases h⟩
  · exact List.forall_mem_cons.mpr
      ⟨by decide, readMagnitude_ascii fun refusal hread => by rw [hread] at h; cases h⟩
  · exact readMagnitude_ascii fun refusal hread => by rw [hread] at h; cases h

end Numeral

namespace Counter

/-- **What spells an integer is text**, so nothing is refused for not being text that could be read
otherwise. -/
theorem decode_eq_readSigned (key : String) (bytes : Bytes) :
    decode key bytes = match Numeral.readSigned bytes with
      | .ok n => .ok n
      | .error _ => .error (.malformedInteger key (Utf8.decodeLossy bytes)) := by
  unfold decode
  cases hread : Numeral.readSigned bytes with
  | ok n => rw [Utf8.decode?_of_ascii (Numeral.readSigned_ascii hread), Option.map_some]
  | error refusal => cases Utf8.decode? bytes <;> rfl

/-- **What a counter writes it reads**, under any key. -/
theorem decode_encode (key : String) (n : Int64) : decode key (encode n) = .ok n := by
  rw [decode_eq_readSigned, encode, Numeral.readSigned_encode]

end Counter

end WatchedStore
