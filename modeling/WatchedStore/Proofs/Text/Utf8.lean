import Mathlib.Tactic.IntervalCases
import WatchedStore.Text.Utf8

/-!
# Texts and their bytes

A scalar value takes one to four bytes. The first one names their number and carries the highest bits; each
of the others carries six. Lenient reading is the other direction, byte by byte, so it is followed here for
each length on its own, up to where the next scalar value starts.

**The law** (`decodeLossy_ofText`): a text is read back from its bytes. So lenient reading loses nothing
where it is applied to bytes that were made of a text, and no two texts have the same bytes.
-/

namespace WatchedStore

namespace Utf8

/-! ## The first byte -/

theorem lead_one {n : Nat} (h : n < 0x80) : lead (UInt8.ofNat n) = .complete (Char.ofNat n) := by
  have hvalue : (UInt8.ofNat n).toNat = n := by
    rw [UInt8.toNat_ofNat']
    omega
  have hlt : UInt8.ofNat n < 0x80 := by
    rw [UInt8.lt_iff_toNat_lt, hvalue]
    exact h
  rw [lead, if_pos hlt, hvalue]

theorem lead_two {p : Nat} (hlow : 2 ≤ p) (hhigh : p < 0x20) :
    lead (UInt8.ofNat (p + 0xc0)) = .unfinished ⟨p, 1, 0x80, 0xBF⟩ := by
  interval_cases p <;> rfl

theorem lead_three {p : Nat} (h : p < 0x10) :
    lead (UInt8.ofNat (p + 0xe0)) =
      .unfinished ⟨p, 2, if p = 0 then 0xA0 else 0x80, if p = 13 then 0x9F else 0xBF⟩ := by
  interval_cases p <;> rfl

theorem lead_four {p : Nat} (h : p < 5) :
    lead (UInt8.ofNat (p + 0xf0)) =
      .unfinished ⟨p, 3, if p = 0 then 0x90 else 0x80, if p = 4 then 0x8F else 0xBF⟩ := by
  interval_cases p <;> rfl

/-! ## The bytes behind it -/

theorem toNat_tail (n : Nat) : (UInt8.ofNat (n % 0x40 + 0x80)).toNat = n % 0x40 + 0x80 := by
  rw [UInt8.toNat_ofNat']
  omega

/-- A byte in the range that a scalar value waits for gives it six bits. -/
theorem scan_tail {u : Unfinished} {n : Nat} (hlow : u.low.toNat ≤ n % 0x40 + 0x80)
    (hhigh : n % 0x40 + 0x80 ≤ u.high.toNat) (rest : Bytes) :
    scan (some u) (UInt8.ofNat (n % 0x40 + 0x80) :: rest) =
      if u.missing ≤ 1 then some (Char.ofNat (u.payload * 64 + n % 0x40)) :: scan none rest
      else scan (some ⟨u.payload * 64 + n % 0x40, u.missing - 1, 0x80, 0xBF⟩) rest := by
  have haccepts : u.accepts (UInt8.ofNat (n % 0x40 + 0x80)) = true := by
    simp only [Unfinished.accepts, Bool.and_eq_true, decide_eq_true_eq, UInt8.le_iff_toNat_le,
      toNat_tail]
    exact ⟨hlow, hhigh⟩
  have hextend : u.extend (UInt8.ofNat (n % 0x40 + 0x80)) = u.payload * 64 + n % 0x40 := by
    have hmask : (0x3F : UInt8).toNat = 2 ^ 6 - 1 := rfl
    rw [Unfinished.extend, UInt8.toNat_and, toNat_tail, hmask, Nat.and_two_pow_sub_one_eq_mod]
    omega
  rw [scan, haccepts, hextend]
  rfl

/-! ## Whole scalar values -/

theorem scan_two {v : Nat} (hlow : 0x7f < v) (hhigh : v ≤ 0x7ff) (rest : Bytes) :
    scan none (UInt8.ofNat (v / 64 % 0x20 + 0xc0) :: UInt8.ofNat (v % 0x40 + 0x80) :: rest) =
      some (Char.ofNat v) :: scan none rest := by
  have hlead : v / 64 % 0x20 = v / 64 := by omega
  have hvalue : v / 64 * 64 + v % 0x40 = v := by omega
  have htail : v % 0x40 + 0x80 ≤ 0xBF := by omega
  rw [hlead, scan, lead_two (by omega) (by omega)]
  dsimp only
  rw [scan_tail (Nat.le_add_left _ _) htail, if_pos (Nat.le_refl _), hvalue]

theorem scan_three {v : Nat} (hlow : 0x7ff < v) (hhigh : v ≤ 0xffff)
    (hvalid : v < 0xD800 ∨ 0xDFFF < v) (rest : Bytes) :
    scan none (UInt8.ofNat (v / 4096 % 0x10 + 0xe0) :: UInt8.ofNat (v / 64 % 0x40 + 0x80) ::
        UInt8.ofNat (v % 0x40 + 0x80) :: rest) =
      some (Char.ofNat v) :: scan none rest := by
  have hlead : v / 4096 % 0x10 = v / 4096 := by omega
  have hvalue : (v / 4096 * 64 + v / 64 % 0x40) * 64 + v % 0x40 = v := by omega
  have htail : v % 0x40 + 0x80 ≤ 0xBF := by omega
  have hleast : (if v / 4096 = 0 then 0xA0 else 0x80 : UInt8).toNat ≤ v / 64 % 0x40 + 0x80 := by
    split
    · simp
      omega
    · simp
  have hmost : v / 64 % 0x40 + 0x80 ≤ (if v / 4096 = 13 then 0x9F else 0xBF : UInt8).toNat := by
    split <;> simp <;> omega
  rw [hlead, scan, lead_three (by omega)]
  dsimp only
  rw [scan_tail hleast hmost, if_neg (by simp),
    scan_tail (Nat.le_add_left _ _) htail, if_pos (by simp), hvalue]

theorem scan_four {v : Nat} (hlow : 0xffff < v) (hhigh : v < 0x110000) (rest : Bytes) :
    scan none (UInt8.ofNat (v / 262144 % 0x08 + 0xf0) :: UInt8.ofNat (v / 4096 % 0x40 + 0x80) ::
        UInt8.ofNat (v / 64 % 0x40 + 0x80) :: UInt8.ofNat (v % 0x40 + 0x80) :: rest) =
      some (Char.ofNat v) :: scan none rest := by
  have hlead : v / 262144 % 0x08 = v / 262144 := by omega
  have hvalue : ((v / 262144 * 64 + v / 4096 % 0x40) * 64 + v / 64 % 0x40) * 64 + v % 0x40 = v := by
    omega
  have hmiddle : v / 64 % 0x40 + 0x80 ≤ 0xBF := by omega
  have htail : v % 0x40 + 0x80 ≤ 0xBF := by omega
  have hleast : (if v / 262144 = 0 then 0x90 else 0x80 : UInt8).toNat ≤ v / 4096 % 0x40 + 0x80 := by
    split
    · simp
      omega
    · simp
  have hmost : v / 4096 % 0x40 + 0x80 ≤ (if v / 262144 = 4 then 0x8F else 0xBF : UInt8).toNat := by
    split <;> simp <;> omega
  rw [hlead, scan, lead_four (by omega)]
  dsimp only
  rw [scan_tail hleast hmost, if_neg (by simp),
    scan_tail (Nat.le_add_left _ _) hmiddle, if_neg (by simp),
    scan_tail (Nat.le_add_left _ _) htail, if_pos (by simp), hvalue]

/-- **The bytes of a character are read as this character.** -/
theorem scan_utf8EncodeChar (c : Char) (rest : Bytes) :
    scan none (String.utf8EncodeChar c ++ rest) = some c :: scan none rest := by
  have hvalid : c.toNat < 0xD800 ∨ 0xDFFF < c.toNat ∧ c.toNat < 0x110000 := c.valid
  have hc : Char.ofNat c.toNat = c := Char.ofNat_toNat c
  have hval : c.val.toNat = c.toNat := rfl
  unfold String.utf8EncodeChar
  dsimp only
  rw [hval]
  split
  · rename_i h
    rw [List.cons_append, List.nil_append, scan, lead_one (Nat.lt_succ_of_le h)]
    dsimp only
    rw [hc]
  rename_i h₁
  split
  · rename_i h
    exact (scan_two (Nat.lt_of_not_le h₁) h rest).trans (by rw [hc])
  rename_i h₂
  split
  · rename_i h
    exact (scan_three (Nat.lt_of_not_le h₂) h (hvalid.imp_right And.left) rest).trans (by rw [hc])
  · rename_i h
    exact (scan_four (Nat.lt_of_not_le h) (by omega) rest).trans (by rw [hc])

theorem utf8EncodeChar_ascii {c : Char} (h : c.toNat < 0x80) :
    String.utf8EncodeChar c = [c.toNat.toUInt8] := by
  have hle : c.val.toNat ≤ 0x7f := Nat.le_of_lt_succ h
  unfold String.utf8EncodeChar
  dsimp only
  rw [if_pos hle]
  rfl

/-- Characters below U+0080 are their bytes. -/
theorem flatMap_ascii {cs : List Char} (h : ∀ c ∈ cs, c.toNat < 0x80) :
    cs.flatMap String.utf8EncodeChar = Bytes.ofAscii cs := by
  induction cs with
  | nil => rfl
  | cons c rest ih =>
    obtain ⟨hc, hrest⟩ := List.forall_mem_cons.mp h
    rw [List.flatMap_cons, utf8EncodeChar_ascii hc, ih hrest]
    rfl

theorem ofText_eq_flatMap (s : String) : Bytes.ofText s = s.toList.flatMap String.utf8EncodeChar := by
  rw [Bytes.ofText, ← String.ofList_toList (s := s), String.toByteArray_ofList, List.utf8Encode]
  simp

theorem scan_ofText (s : String) : scan none (Bytes.ofText s) = s.toList.map some := by
  rw [ofText_eq_flatMap]
  induction s.toList with
  | nil => rfl
  | cons c rest ih => rw [List.flatMap_cons, scan_utf8EncodeChar, ih, List.map_cons]

theorem mapM_map_some {α : Type} (xs : List α) : (xs.map some).mapM id = some xs := by
  induction xs with
  | nil => rfl
  | cons x rest ih => rw [List.map_cons, List.mapM_cons, ih]; rfl

theorem decode?_ofText (s : String) : decode? (Bytes.ofText s) = some s := by
  rw [decode?, scan_ofText, mapM_map_some, Option.map_some, String.ofList_toList]

theorem scan_ascii {bytes : Bytes} (h : ∀ b ∈ bytes, b < 0x80) :
    scan none bytes = bytes.map fun b => some (Char.ofNat b.toNat) := by
  induction bytes with
  | nil => rfl
  | cons b rest ih =>
    obtain ⟨hb, hrest⟩ := List.forall_mem_cons.mp h
    have hlead : lead b = .complete (Char.ofNat b.toNat) := if_pos hb
    rw [List.map_cons, ← ih hrest, scan, hlead]

/-- Bytes below `0x80` are text. -/
theorem decode?_of_ascii {bytes : Bytes} (h : ∀ b ∈ bytes, b < 0x80) :
    decode? bytes = some (String.ofList (bytes.map fun b => Char.ofNat b.toNat)) := by
  have hmap : (bytes.map fun b => some (Char.ofNat b.toNat)) =
      (bytes.map fun b => Char.ofNat b.toNat).map some := by
    rw [List.map_map]
    rfl
  rw [decode?, scan_ascii h, hmap, mapM_map_some, Option.map_some]

theorem encodeScalar_toNat (c : Char) : encodeScalar c.toNat = String.utf8EncodeChar c := by
  rw [encodeScalar, Char.ofNat_toNat, ofText_eq_flatMap, String.toList_singleton]
  exact List.append_nil _

/-- **A text is read back from its bytes.** -/
theorem decodeLossy_ofText (s : String) : decodeLossy (Bytes.ofText s) = s := by
  rw [decodeLossy, scan_ofText, List.map_map]
  simp

end Utf8

/-- Different texts have different bytes. -/
theorem Bytes.ofText_injective : Function.Injective Bytes.ofText := by
  intro s t h
  rw [← Utf8.decodeLossy_ofText s, h, Utf8.decodeLossy_ofText]

end WatchedStore
