import WatchedStore.Json.Parse
import WatchedStore.Proofs.Json.Grammar
import WatchedStore.Proofs.Json.Yields
import WatchedStore.Proofs.Json.Quote
import WatchedStore.Proofs.Text.Decimal

/-!
# What is written spells the document

A document is written in one of the texts that spell it (`Written`), whatever comes behind it, as long as
that does not go on with a number. Strings and natural numbers are written so that they are read as
themselves. For doubles this is not shown but asked for, of each double that occurs (`RoundTrips`): they
are read by one multiplication or division, and that this is exact is a matter of their own.
-/

namespace WatchedStore.Json

open Reader

/-- **A document that its own text spells**, in front of whatever does not go on with a number. -/
def Written (d : Document) : Prop :=
  ∀ more, Ends more → ∃ ws, Blanks ws ∧ Spells (d.encode ++ more) (.value d) (ws ++ more)

theorem encode_eq (d : Document) : d.encode = d.characters.flatMap String.utf8EncodeChar := by
  rw [Document.encode, Document.text, Utf8.ofText_eq_flatMap, String.toList_ofList]

theorem Written.isText {d : Document} (h : Written d) : IsText d.encode d := by
  obtain ⟨ws, hws, hspells⟩ := h [] ⟨rfl, rfl, rfl⟩
  rw [List.append_nil, List.append_nil] at hspells
  exact ⟨ws, hspells, hws⟩

/-! ## Scalars -/

theorem written_bool (b : Bool) : Written (.bool b) := by
  intro more _
  refine ⟨[], blanks_nil, ?_⟩
  have hspells : Spells ([] ++ (Bytes.ofText (if b then "true" else "false") ++ more))
      (.value (.bool b)) more := .bool b blanks_nil
  cases b <;> exact hspells

theorem quoted_eq (s : String) (rest : Bytes) :
    (stringCharacters s).flatMap String.utf8EncodeChar ++ rest =
      0x22 :: ((s.toList.flatMap escapeChar).flatMap String.utf8EncodeChar ++ 0x22 :: rest) := by
  have hquote : String.utf8EncodeChar '"' = [0x22] := rfl
  rw [stringCharacters, List.flatMap_append, List.flatMap_cons, List.flatMap_singleton, hquote]
  simp

theorem written_string (s : String) : Written (.string s) := by
  intro more _
  refine ⟨[], blanks_nil, ?_⟩
  rw [encode_eq, Document.characters, quoted_eq]
  exact .string blanks_nil (stringRest_written s more)

/-! ## Numbers -/

section Numbers

variable {more : Bytes} {digits : Bytes}

theorem isDigit_iff {b : UInt8} : isDigit b = true ↔ Numeral.IsDigit b := by
  simp only [isDigit, Numeral.IsDigit, Bool.and_eq_true, decide_eq_true_eq]

/-- Digits whose value keeps to the limit are all added up. -/
theorem accumulate_eq {limit front : Nat} (h : Numeral.digitsValue front digits ≤ limit) :
    accumulate limit front digits = (Numeral.digitsValue front digits, []) := by
  induction digits generalizing front with
  | nil => rfl
  | cons b rest ih =>
    have hgrown : front * 10 + (b.toNat - 0x30) ≤ limit :=
      Nat.le_trans (Numeral.le_digitsValue rest _) h
    rw [accumulate, if_pos hgrown]
    exact ih h

/-- Digits without a zero in front are all taken. -/
theorem wholeDigits_plain {first : UInt8} {rest : Bytes} (hfirst : first ≠ 0x30)
    (hdigits : Numeral.Digits (first :: rest)) (hmore : Ends more) :
    wholeDigits (first :: rest ++ more) = (.ok (first :: rest), more) := by
  have hall : ∀ b ∈ first :: rest, isDigit b = true := fun b hb => isDigit_iff.mpr (hdigits.2 b hb)
  have htaken : takeDigits (first :: rest ++ more) = (.ok (first :: rest), more) := by
    rw [takeDigits, List.takeWhile_append_of_pos hall, List.dropWhile_append_of_pos hall,
      hmore.takeWhile.1, hmore.takeWhile.2, List.append_nil]
  rw [wholeDigits, List.cons_append, bind_peek]
  dsimp only [List.head?_cons]
  rw [if_neg hfirst, if_pos (hall first List.mem_cons_self)]
  exact htaken

/-- Nothing but digits in front of the point. -/
theorem figures_whole {text whole : Bytes} (h : wholeDigits text = (.ok whole, more)) (hmore : Ends more) :
    figures text = (.ok ⟨whole, none, none⟩, more) := by
  have hfraction : fractionDigits more = (.ok none, more) := by
    rw [fractionDigits, bind_peek, hmore.point]
    rfl
  have hexponent : exponentDigits more = (.ok none, more) := by
    rw [exponentDigits, bind_peekIsExponent, hmore.exponent]
    rfl
  rw [figures, bind_of_ok h, bind_of_ok hfraction, bind_of_ok hexponent]
  rfl

/-- **The digits of a natural number of 64 bits are read as this number.** -/
theorem number_natural (n : UInt64) (hmore : Ends more) :
    number true (Bytes.ofAscii (Nat.toDigits 10 n.toNat) ++ more) = (.ok (.natural n), more) := by
  rcases Nat.eq_zero_or_pos n.toNat with hzero | hpos
  · obtain rfl : n = 0 := UInt64.toNat_inj.mp hzero
    have hwhole : wholeDigits (0x30 :: more) = (.ok [], more) := by
      rw [wholeDigits, bind_peek]
      dsimp only [List.head?_cons]
      rw [if_pos rfl, bind_skip, List.tail_cons, bind_peekIsDigit, hmore.digit]
      rfl
    exact (bind_of_ok (figures_whole hwhole hmore)).trans rfl
  · obtain ⟨first, rest, heq, hfirst⟩ := Numeral.first_toDigits hpos
    obtain ⟨hdigits, hvalue⟩ := Numeral.digits_toDigits n.toNat
    have hle : Numeral.digitsValue 0 (Bytes.ofAscii (Nat.toDigits 10 n.toNat)) ≤ maxSignificand := by
      rw [hvalue]
      exact Nat.le_of_lt_succ n.toNat_lt
    have hsum := accumulate_eq hle
    rw [heq] at hdigits hsum ⊢
    rw [heq] at hvalue
    rw [number, bind_of_ok (figures_whole (wholeDigits_plain hfirst hdigits hmore) hmore),
      Figures.value, hsum, hvalue]
    have hsame : integer true n.toNat = .natural n := congrArg Number.natural UInt64.ofNat_toNat
    exact pure_eq_ok_iff.mpr ⟨hsame, rfl⟩

theorem written_natural (n : UInt64) : Written (.number (.natural n)) := by
  intro more hmore
  obtain ⟨hne, hdigits⟩ := (Numeral.digits_toDigits n.toNat).1
  have hbytes : (Document.number (.natural n)).encode = Bytes.ofAscii (Nat.toDigits 10 n.toNat) := by
    have hascii : ∀ c ∈ Nat.toDigits 10 n.toNat, c.toNat < 0x80 := by
      intro c hc
      have hdigit := Char.isDigit_iff_toNat.mp
        (Nat.isDigit_of_mem_toDigits (by decide) (by decide) hc)
      exact Nat.lt_of_le_of_lt hdigit.2 (by decide)
    rw [encode_eq, Document.characters, Number.characters, ← Utf8.flatMap_ascii hascii,
      Numeral.characters, if_neg (by omega), Int.natAbs_natCast]
  refine ⟨[], blanks_nil, ?_⟩
  have hread := number_natural n hmore
  rw [hbytes]
  obtain ⟨first, rest, heq⟩ := List.exists_cons_of_ne_nil hne
  rw [heq] at hread hdigits ⊢
  exact .number blanks_nil (isDigit_iff.mpr (hdigits first List.mem_cons_self)) hread

/-- **A double that the JSON layer round-trips**: it is read back from its text. -/
def RoundTrips (x : Float) : Prop :=
  Document.parse (Document.ofDouble x).encode = .ok (.number (.double x))

/-- Whatever is read as a number spells this number. -/
theorem isText_of_parse {text : Bytes} {n : Number} (h : Document.parse text = .ok (.number n)) :
    IsText text (.number n) := by
  obtain ⟨rest, hread, hblank⟩ := run_eq_ok h
  refine ⟨rest, ?_, blanks_of_dropWhile hblank⟩
  rw [document, bind_rest] at hread
  obtain ⟨b, left, hb, hread⟩ := bind_eq_ok_iff.mp hread
  obtain ⟨ws, tail, rfl, rfl, hws⟩ := valueStart_eq_ok hb
  rw [ite_run] at hread
  split at hread
  · rename_i hminus
    subst hminus
    rw [bind_skip, List.tail_cons] at hread
    obtain ⟨m, mid, hm, hread⟩ := bind_eq_ok_iff.mp hread
    obtain ⟨heq, rfl⟩ := pure_eq_ok_iff.mp hread
    cases heq
    exact .negative hws hm
  rw [ite_run] at hread
  split at hread
  · rename_i hdigit
    obtain ⟨m, mid, hm, hread⟩ := bind_eq_ok_iff.mp hread
    obtain ⟨heq, rfl⟩ := pure_eq_ok_iff.mp hread
    cases heq
    exact .number hws hdigit hm
  · -- no other document is a number
    refine absurd rfl ((?_ : Yields _ fun d => ∀ n, d ≠ .number n) hread n)
    split
    · exact yields_bind fun _ => yields_bind fun _ => yields_pure fun _ => nofun
    · exact yields_bind fun _ => yields_bind fun _ => yields_pure fun _ => nofun
    · exact yields_bind fun _ => yields_bind fun _ => yields_pure fun _ => nofun
    · exact yields_bind fun _ => yields_bind fun _ => yields_pure fun _ => nofun
    · exact yields_bind fun _ => yields_pure fun _ => nofun
    · exact yields_bind fun _ => yields_pure fun _ => nofun
    · exact yields_stopAhead _

/-- A text that a digit begins is read as its number. -/
theorem parse_number {b : UInt8} {text : Bytes} {n : Number} (hb : isDigit b = true)
    (h : number true (b :: text) = (.ok n, [])) : Document.parse (b :: text) = .ok (.number n) := by
  have hminus : ¬ b = 0x2D := by
    rintro rfl
    cases hb
  have hvalue : document (b :: text) = (.ok (.number n), []) := by
    have hstart : valueStart (b :: text) = (.ok b, b :: text) :=
      valueStart_run blanks_nil (isBlank_of_isDigit hb) text
    rw [document, bind_rest, documentAt, bind_of_ok hstart, if_neg hminus, if_pos hb, bind_of_ok h]
    rfl
  exact run_of_ok hvalue rfl

/-- Two and a half is written as `2.5` and read as 25 divided by 10. -/
theorem roundTrips_half : RoundTrips 2.5 := by
  have hencode : (Document.ofDouble 2.5).encode = [0x32, 0x2E, 0x35] := by decide +kernel
  have hquotient : divideByPower (25 : Nat).toUInt64.toFloat 1 = 2.5 := by
    rw [divideByPower, if_pos (by decide)]
    rfl
  have hnumber : number true [0x32, 0x2E, 0x35] = (.ok (.double 2.5), []) := by
    have hscaled : scaled true 25 (-1) none [] = (.ok 2.5, []) :=
      pure_eq_ok_iff.mpr ⟨hquotient, rfl⟩
    have hvalue : Figures.value true ⟨[0x32], some [0x35], none⟩ [] = (.ok (.double 2.5), []) :=
      map_eq_ok_iff.mpr ⟨2.5, hscaled, rfl⟩
    exact (bind_of_ok (show figures [0x32, 0x2E, 0x35] = _ from rfl)).trans hvalue
  rw [RoundTrips, hencode]
  exact parse_number rfl hnumber

/-- What goes on behind a number does not change it. -/
theorem Spells.append_number {text rest : Bytes} {n : Number}
    (h : Spells text (.value (.number n)) rest) (hmore : Ends more) :
    Spells (text ++ more) (.value (.number n)) (rest ++ more) := by
  cases h with
  | number hws hd h =>
    rw [List.append_assoc, List.cons_append]
    exact .number hws hd ((number_takes h).1.apart more hmore)
  | negative hws h =>
    rw [List.append_assoc, List.cons_append]
    exact .negative hws ((number_takes h).1.apart more hmore)

theorem written_double {x : Float} (h : RoundTrips x) :
    Document.ofDouble x = .number (.double x) ∧ Written (.number (.double x)) := by
  have hfinite : Document.ofDouble x = .number (.double x) := by
    unfold RoundTrips at h
    unfold Document.ofDouble at h ⊢
    split
    · rfl
    · rename_i hnot
      rw [if_neg hnot] at h
      cases h
  refine ⟨hfinite, fun more hmore => ?_⟩
  rw [RoundTrips, hfinite] at h
  obtain ⟨ws, hspells, hws⟩ := isText_of_parse h
  exact ⟨ws, hws, hspells.append_number hmore⟩

end Numbers

/-! ## Objects -/

section Objects

variable {ms : List (String × Document)} {more rest text ws : Bytes}

/-- The bytes of a member, and what comes behind it. -/
def memberBytes (name : String) (d : Document) (rest : Bytes) : Bytes :=
  (stringCharacters name).flatMap String.utf8EncodeChar ++ 0x3A :: (d.encode ++ rest)

/-- The bytes that are left of an object behind one of its members. -/
def objectRest : List (String × Document) → Bytes
  | [] => [0x7D]
  | (name, d) :: ms => 0x2C :: memberBytes name d (objectRest ms)

/-- The bytes of an object behind its opening bracket. -/
def objectBytes : List (String × Document) → Bytes
  | [] => [0x7D]
  | (name, d) :: ms => memberBytes name d (objectRest ms)

theorem memberBytes_append (name : String) (d : Document) (rest more : Bytes) :
    memberBytes name d rest ++ more = memberBytes name d (rest ++ more) := by
  simp [memberBytes]

/-- A member and those behind it, with commas between them. -/
theorem commaSeparated_members (name : String) (d : Document) (ms : List (String × Document)) :
    (commaSeparated (memberCharacters ((name, d) :: ms)) ++ ['\x7d']).flatMap String.utf8EncodeChar =
      memberBytes name d (objectRest ms) := by
  have hcolon : String.utf8EncodeChar ':' = [0x3A] := rfl
  have hcomma : String.utf8EncodeChar ',' = [0x2C] := rfl
  have hclose : String.utf8EncodeChar '\x7d' = [0x7D] := rfl
  induction ms generalizing name d with
  | nil =>
    simp [commaSeparated, memberCharacters, memberBytes, objectRest, encode_eq, hcolon, hclose]
  | cons m ms ih =>
    obtain ⟨other, e⟩ := m
    have hstep : commaSeparated (memberCharacters ((name, d) :: (other, e) :: ms)) =
        (stringCharacters name ++ ':' :: d.characters) ++
          ',' :: commaSeparated (memberCharacters ((other, e) :: ms)) := by
      simp [commaSeparated, memberCharacters, List.intercalate]
    rw [hstep, List.append_assoc, List.flatMap_append, List.cons_append, List.flatMap_cons, ih other e]
    simp [memberBytes, objectRest, encode_eq, hcolon, hcomma]

theorem encode_object (ms : List (String × Document)) :
    (Document.object ms).encode = 0x7B :: objectBytes ms := by
  have hopen : String.utf8EncodeChar '\x7b' = [0x7B] := rfl
  rw [encode_eq, Document.characters, List.cons_append, List.flatMap_cons, hopen]
  cases ms with
  | nil => rfl
  | cons m ms => exact congrArg (0x7B :: ·) (commaSeparated_members m.1 m.2 ms)

/-- Blanks in front of a comma or of the end of an object belong there. -/
theorem Spells.blanks_members (h : Spells text (.members false ms) rest) (hws : Blanks ws) :
    Spells (ws ++ text) (.members false ms) rest := by
  have happend : ∀ {gap : Bytes}, Blanks gap → Blanks (ws ++ gap) := by
    intro gap hgap b hb
    exact (List.mem_append.mp hb).elim (hws b) (hgap b)
  cases h with
  | lastMember hgap =>
    rw [← List.append_assoc]
    exact .lastMember (happend hgap)
  | member hsep hbefore hname hgap h hrest =>
    cases hsep with
    | comma hcomma =>
      rw [← List.append_assoc ws, ← List.append_assoc ws]
      exact .member (.comma (happend hcomma)) hbefore hname hgap h hrest

theorem memberBytes_spells {name : String} {d : Document} {sep : Bytes} {first : Bool}
    (hsep : Separator first sep) (hd : Written d) (hmore : Ends rest)
    (hrest : Spells rest (.members false ms) more) :
    Spells (sep ++ memberBytes name d rest) (.members first ((name, d) :: ms)) more := by
  obtain ⟨ws, hws, hspells⟩ := hd rest hmore
  rw [memberBytes, quoted_eq]
  have hname : stringRest ((name.toList.flatMap escapeChar).flatMap String.utf8EncodeChar ++
      0x22 :: 0x3A :: (d.encode ++ rest)) = (.ok name, [] ++ 0x3A :: (d.encode ++ rest)) :=
    stringRest_written name _
  have hmember := Spells.member hsep blanks_nil hname blanks_nil hspells (hrest.blanks_members hws)
  rw [List.nil_append] at hmember
  exact hmember

theorem objectRest_spells (h : ∀ m ∈ ms, Written m.2) (more : Bytes) :
    Spells (objectRest ms ++ more) (.members false ms) more ∧ Ends (objectRest ms ++ more) := by
  induction ms with
  | nil => exact ⟨.lastMember blanks_nil, ⟨rfl, rfl, rfl⟩⟩
  | cons m ms ih =>
    obtain ⟨hm, hms⟩ := List.forall_mem_cons.mp h
    obtain ⟨hrest, hends⟩ := ih hms
    refine ⟨?_, ⟨rfl, rfl, rfl⟩⟩
    rw [objectRest, List.cons_append, memberBytes_append]
    exact memberBytes_spells (.comma blanks_nil) hm hends hrest

/-- **An object is written so that its text spells it**, if the values of its members are. -/
theorem written_object (h : ∀ m ∈ ms, Written m.2) : Written (.object ms) := by
  intro more _
  refine ⟨[], blanks_nil, ?_⟩
  rw [encode_object, List.cons_append]
  refine .object blanks_nil ?_
  cases ms with
  | nil => exact .lastMember blanks_nil
  | cons m ms =>
    obtain ⟨hm, hms⟩ := List.forall_mem_cons.mp h
    obtain ⟨hrest, hends⟩ := objectRest_spells hms more
    rw [objectBytes, memberBytes_append]
    exact memberBytes_spells .none hm hends hrest

end Objects

/-! ## Plain documents -/

/-- **Documents of scalars that are read back as themselves**, and of objects of such documents. -/
inductive Plain : Document → Prop
  | bool (b : Bool) : Plain (.bool b)
  | string (s : String) : Plain (.string s)
  | natural (n : UInt64) : Plain (.number (.natural n))
  | double {x : Float} (h : RoundTrips x) : Plain (.number (.double x))
  | object {ms : List (String × Document)} (h : ∀ m ∈ ms, Plain m.2) : Plain (.object ms)

/-- **A plain document is written so that its text spells it.** -/
theorem Plain.written {d : Document} (h : Plain d) : Written d := by
  induction h with
  | bool b => exact written_bool b
  | string s => exact written_string s
  | natural n => exact written_natural n
  | double h => exact (written_double h).2
  | object _ ih => exact written_object ih

end WatchedStore.Json
