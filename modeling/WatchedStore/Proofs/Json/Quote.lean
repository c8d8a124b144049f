import WatchedStore.Proofs.Json.Reading
import WatchedStore.Proofs.Text.Utf8

/-!
# Strings survive being written

A character is written as itself, if its bytes are plain, else as an escape (`escapeChar_cases`). Reading
takes plain bytes in runs, which may reach over many characters; but a run may be taken in pieces
(`stringBytes_plain`), so the induction is on the characters all the same.
-/

namespace WatchedStore.Json

open Reader

/-! ## Plain bytes -/

theorem isPlain_of_le {b : UInt8} (h : 0x80 ≤ b.toNat) : isPlain b = true := by
  have hne : ∀ c : UInt8, c.toNat < 0x80 → (b != c) = true := by
    intro c hc
    rw [bne_iff_ne]
    rintro rfl
    omega
  have hlow : (0x20 : UInt8) ≤ b := UInt8.le_iff_toNat_le.mpr (Nat.le_trans (by decide) h)
  rw [isPlain, hne 0x22 (by decide), hne 0x5C (by decide), decide_eq_true hlow]
  rfl

/-- A character of one byte has a plain one, if it is no control, quote or backslash. -/
theorem isPlain_ascii {c : Char} (hone : c.toNat < 0x80) (hcontrol : ¬ c.toNat < 0x20) (hquote : c ≠ '"')
    (hslash : c ≠ '\\') : isPlain (UInt8.ofNat c.toNat) = true := by
  have hcode : (UInt8.ofNat c.toNat).toNat = c.toNat := by
    rw [UInt8.toNat_ofNat']
    omega
  have hne : ∀ d : Char, d.toNat < 0x80 → c ≠ d → (UInt8.ofNat c.toNat != d.toNat.toUInt8) = true := by
    intro d hd hcd
    rw [bne_iff_ne]
    intro heq
    have htoNat := congrArg UInt8.toNat heq
    rw [hcode, Nat.toUInt8, UInt8.toNat_ofNat', Nat.mod_eq_of_lt (by omega)] at htoNat
    exact hcd (Char.toNat_inj.mp htoNat)
  have hlow : (0x20 : UInt8) ≤ UInt8.ofNat c.toNat := by
    rw [UInt8.le_iff_toNat_le, hcode]
    exact Nat.le_of_not_lt hcontrol
  rw [isPlain, decide_eq_true hlow]
  exact Bool.and_eq_true_iff.mpr ⟨hne '"' (by decide) hquote, hne '\\' (by decide) hslash⟩

/-- Only characters of one byte can have a byte that is not plain. -/
theorem isPlain_utf8EncodeChar {c : Char} (hcontrol : ¬ c.toNat < 0x20) (hquote : c ≠ '"')
    (hslash : c ≠ '\\') : ∀ b ∈ String.utf8EncodeChar c, isPlain b = true := by
  have hlarge : ∀ n, 0x80 ≤ n → n < 0x100 → isPlain (UInt8.ofNat n) = true := by
    intro n hlow hhigh
    refine isPlain_of_le ?_
    rw [UInt8.toNat_ofNat', Nat.mod_eq_of_lt hhigh]
    exact hlow
  have hval : c.val.toNat = c.toNat := rfl
  intro b hb
  unfold String.utf8EncodeChar at hb
  dsimp only at hb
  rw [hval] at hb
  split at hb
  · rename_i hone
    rw [List.mem_singleton.mp hb]
    exact isPlain_ascii (Nat.lt_succ_of_le hone) hcontrol hquote hslash
  split at hb
  · simp only [List.mem_cons, List.not_mem_nil, or_false] at hb
    rcases hb with rfl | rfl <;> exact hlarge _ (by omega) (by omega)
  split at hb
  · simp only [List.mem_cons, List.not_mem_nil, or_false] at hb
    rcases hb with rfl | rfl | rfl <;> exact hlarge _ (by omega) (by omega)
  · simp only [List.mem_cons, List.not_mem_nil, or_false] at hb
    rcases hb with rfl | rfl | rfl | rfl <;> exact hlarge _ (by omega) (by omega)

/-! ## Escapes -/

/-- A control character is spelled by its number. -/
theorem hexNumber?_control : ∀ n < 0x20,
    hexNumber? 0x30 0x30 (Nat.digitChar (n / 16)).toNat.toUInt8 (Nat.digitChar (n % 16)).toNat.toUInt8 =
      some n := by
  decide

/-- The escape of a control character, behind its backslash. -/
def controlEscape (c : Char) : Bytes :=
  [0x75, 0x30, 0x30, (Nat.digitChar (c.toNat / 16)).toNat.toUInt8,
    (Nat.digitChar (c.toNat % 16)).toNat.toUInt8]

theorem controlEscape_written {c : Char} (h : c.toNat < 0x20) :
    ['\\', 'u', '0', '0', Nat.digitChar (c.toNat / 16), Nat.digitChar (c.toNat % 16)].flatMap
      String.utf8EncodeChar = 0x5C :: controlEscape c := by
  have hdigit : ∀ n < 16, (Nat.digitChar n).toNat < 0x80 := by decide
  refine Utf8.flatMap_ascii fun d hd => ?_
  simp only [List.mem_cons, List.not_mem_nil, or_false] at hd
  rcases hd with rfl | rfl | rfl | rfl | rfl | rfl
  · decide
  · decide
  · decide
  · decide
  · exact hdigit _ (by omega)
  · exact hdigit _ (by omega)

theorem escape_control {c : Char} (h : c.toNat < 0x20) (rest : Bytes) :
    escape (controlEscape c ++ rest) = (.ok (String.utf8EncodeChar c), rest) := by
  have hhex : hexEscape ((controlEscape c).tail ++ rest) = (.ok c.toNat, rest) :=
    hexEscape_eq_ok_iff.mpr ⟨_, _, _, _, rfl, hexNumber?_control c.toNat h⟩
  have hscalar : ¬ (decide (0xDC00 ≤ c.toNat) && decide (c.toNat ≤ 0xDFFF)) = true := by
    simp
    omega
  have hshort : (decide (c.toNat < 0xD800) || decide (0xDBFF < c.toNat)) = true := by
    simp
    omega
  rw [controlEscape, List.cons_append, escape, bind_next]
  refine (bind_of_ok hhex).trans ?_
  rw [if_neg hscalar, if_pos hshort, Utf8.encodeScalar_toNat]
  rfl

/-- **A character is written plainly or as an escape**, which is read as the bytes of the character. -/
theorem escapeChar_cases (c : Char) :
    (escapeChar c = [c] ∧ ∀ b ∈ String.utf8EncodeChar c, isPlain b = true) ∨
      ∃ tail, (escapeChar c).flatMap String.utf8EncodeChar = 0x5C :: tail ∧
        ∀ rest, escape (tail ++ rest) = (.ok (String.utf8EncodeChar c), rest) := by
  unfold escapeChar
  split
  · exact .inr ⟨[0x22], rfl, fun _ => rfl⟩
  · exact .inr ⟨[0x5C], rfl, fun _ => rfl⟩
  · exact .inr ⟨[0x62], rfl, fun _ => rfl⟩
  · exact .inr ⟨[0x66], rfl, fun _ => rfl⟩
  · exact .inr ⟨[0x6E], rfl, fun _ => rfl⟩
  · exact .inr ⟨[0x72], rfl, fun _ => rfl⟩
  · exact .inr ⟨[0x74], rfl, fun _ => rfl⟩
  · rename_i hquote hslash _ _ _ _ _
    split
    · rename_i hcontrol
      exact .inr ⟨controlEscape c, controlEscape_written hcontrol, escape_control hcontrol⟩
    · rename_i hcontrol
      exact .inl ⟨rfl, isPlain_utf8EncodeChar hcontrol hquote hslash⟩

/-! ## Strings -/

section Strings

variable {before rest mid : Bytes}

/-- A run of plain bytes may be taken in pieces. -/
theorem stringBytes_plain {plain : Bytes} (h : ∀ b ∈ plain, isPlain b = true) (fuel : Nat)
    (before rest : Bytes) :
    stringBytes (fuel + 1) before (plain ++ rest) = stringBytes (fuel + 1) (before ++ plain) rest := by
  rw [stringBytes, stringBytes, bind_rest, bind_rest, List.takeWhile_append_of_pos h,
    List.dropWhile_append_of_pos h, bind_setRest, bind_setRest, List.append_assoc]

theorem stringBytes_quote (fuel : Nat) (before rest : Bytes) :
    stringBytes (fuel + 1) before (0x22 :: rest) = (.ok before, rest) := by
  rw [stringBytes, bind_rest, bind_setRest, List.dropWhile_cons_of_neg (by decide),
    List.takeWhile_cons_of_neg (by decide), List.append_nil]
  rfl

theorem stringBytes_escape {tail escaped : Bytes} (h : escape tail = (.ok escaped, mid)) (fuel : Nat)
    (before : Bytes) :
    stringBytes (fuel + 1) before (0x5C :: tail) = stringBytes fuel (before ++ escaped) mid := by
  rw [stringBytes, bind_rest, bind_setRest, List.dropWhile_cons_of_neg (by decide),
    List.takeWhile_cons_of_neg (by decide), List.append_nil]
  exact bind_of_ok h

/-- **What is written of characters is read as their bytes**, up to the closing quote. -/
theorem stringBytes_escapeChar (cs : List Char) (before rest : Bytes) {fuel : Nat}
    (hfuel : cs.length < fuel) :
    stringBytes fuel before ((cs.flatMap escapeChar).flatMap String.utf8EncodeChar ++ 0x22 :: rest) =
      (.ok (before ++ cs.flatMap String.utf8EncodeChar), rest) := by
  obtain ⟨n, rfl⟩ : ∃ n, fuel = n + 1 := ⟨fuel - 1, by omega⟩
  induction cs generalizing before n with
  | nil => simpa using stringBytes_quote n before rest
  | cons c cs ih =>
    rw [List.length_cons] at hfuel
    rw [List.flatMap_cons, List.flatMap_append, List.append_assoc, List.flatMap_cons,
      ← List.append_assoc before]
    rcases escapeChar_cases c with ⟨hself, hplain⟩ | ⟨tail, htail, hescape⟩
    · rw [hself, List.flatMap_singleton, stringBytes_plain hplain]
      exact ih (before ++ String.utf8EncodeChar c) n (by omega)
    · obtain ⟨m, rfl⟩ : ∃ m, n = m + 1 := ⟨n - 1, by omega⟩
      rw [htail, List.cons_append, stringBytes_escape (hescape _)]
      exact ih (before ++ String.utf8EncodeChar c) m (by omega)

/-- A character takes a byte at least. -/
theorem length_le_written (cs : List Char) :
    cs.length ≤ ((cs.flatMap escapeChar).flatMap String.utf8EncodeChar).length := by
  induction cs with
  | nil => exact Nat.zero_le _
  | cons c cs ih =>
    have hone : 0 < ((escapeChar c).flatMap String.utf8EncodeChar).length := by
      rcases escapeChar_cases c with ⟨hself, -⟩ | ⟨tail, htail, -⟩
      · rw [hself, List.flatMap_singleton]
        exact List.length_pos_iff.mpr String.utf8EncodeChar_ne_nil
      · rw [htail]
        exact Nat.succ_pos _
    rw [List.flatMap_cons, List.flatMap_append, List.length_append, List.length_cons]
    omega

/-- **A string that is written is read as itself.** -/
theorem stringRest_written (s : String) (rest : Bytes) :
    stringRest ((s.toList.flatMap escapeChar).flatMap String.utf8EncodeChar ++ 0x22 :: rest) =
      (.ok s, rest) := by
  have hlength : s.toList.length <
      ((s.toList.flatMap escapeChar).flatMap String.utf8EncodeChar ++ 0x22 :: rest).length + 1 := by
    have hle := length_le_written s.toList
    rw [List.length_append]
    omega
  rw [stringRest, bind_rest, bind_of_ok (stringBytes_escapeChar s.toList [] rest hlength),
    List.nil_append, ← Utf8.ofText_eq_flatMap, Utf8.decode?_ofText]
  rfl

end Strings

end WatchedStore.Json
