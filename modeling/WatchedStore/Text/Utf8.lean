import WatchedStore.Bytes

/-!
# Reading UTF-8

`scan` cuts a byte string into scalar values and maximal ill-formed parts, one list element each, in
one pass over the bytes. Strict reading wants every element to be a scalar; lenient reading puts the
replacement character in place of each ill-formed part. A part that ends inside a scalar reaches as
far as its bytes could still have become one, so a truncated sequence counts once.
-/

namespace WatchedStore.Utf8

/-- A scalar value that is not complete yet: the payload read so far, how many bytes are missing and
in which range the next one has to lie. -/
structure Unfinished where
  payload : Nat
  missing : Nat
  low : UInt8
  high : UInt8

/-- What a first byte starts. -/
inductive Lead where
  | complete (c : Char)
  | unfinished (u : Unfinished)
  | invalid

/-- Classifies a first byte. The narrowed ranges of the second byte keep out overlong forms,
surrogates and values above U+10FFFF. -/
def lead (b : UInt8) : Lead :=
  let payload (mask : UInt8) : Nat := (b &&& mask).toNat
  if b < 0x80 then .complete (Char.ofNat b.toNat)
  else if b < 0xC2 then .invalid
  else if b < 0xE0 then .unfinished ⟨payload 0x1F, 1, 0x80, 0xBF⟩
  else if b = 0xE0 then .unfinished ⟨payload 0x0F, 2, 0xA0, 0xBF⟩
  else if b = 0xED then .unfinished ⟨payload 0x0F, 2, 0x80, 0x9F⟩
  else if b < 0xF0 then .unfinished ⟨payload 0x0F, 2, 0x80, 0xBF⟩
  else if b = 0xF0 then .unfinished ⟨payload 0x07, 3, 0x90, 0xBF⟩
  else if b < 0xF4 then .unfinished ⟨payload 0x07, 3, 0x80, 0xBF⟩
  else if b = 0xF4 then .unfinished ⟨payload 0x07, 3, 0x80, 0x8F⟩
  else .invalid

/-- Whether a byte can follow. -/
def Unfinished.accepts (u : Unfinished) (b : UInt8) : Bool := u.low ≤ b && b ≤ u.high

/-- The payload with six more bits. -/
def Unfinished.extend (u : Unfinished) (b : UInt8) : Nat := u.payload * 64 + (b &&& 0x3F).toNat

/-- The scalar values and ill-formed parts (`none`) of a byte string, after what was begun before it. -/
def scan : Option Unfinished → Bytes → List (Option Char)
  | none, [] => []
  | some _, [] => [none]
  | none, b :: rest =>
    match lead b with
    | .complete c => some c :: scan none rest
    | .unfinished u => scan (some u) rest
    | .invalid => none :: scan none rest
  | some u, b :: rest =>
    if u.accepts b then
      if u.missing ≤ 1 then some (Char.ofNat (u.extend b)) :: scan none rest
      else scan (some ⟨u.extend b, u.missing - 1, 0x80, 0xBF⟩) rest
    else
      match lead b with
      | .complete c => none :: some c :: scan none rest
      | .unfinished v => none :: scan (some v) rest
      | .invalid => none :: none :: scan none rest

/-- The text that the bytes spell, when they are well formed. -/
def decode? (bytes : Bytes) : Option String :=
  ((scan none bytes).mapM id).map String.ofList

/-- The text that the bytes spell, with U+FFFD for every ill-formed part. -/
def decodeLossy (bytes : Bytes) : String :=
  String.ofList ((scan none bytes).map (·.getD (Char.ofNat 0xFFFD)))

/-- How many bytes stand before the first ill-formed part. -/
def validLength (bytes : Bytes) : Nat :=
  ((scan none bytes).takeWhile Option.isSome).foldl (fun total c => total + c.elim 0 Char.utf8Size) 0

/-- The UTF-8 bytes of the scalar value of this number. -/
def encodeScalar (n : Nat) : Bytes := Bytes.ofText (String.singleton (Char.ofNat n))

end WatchedStore.Utf8
