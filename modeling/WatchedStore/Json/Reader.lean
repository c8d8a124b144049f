import WatchedStore.Text.Utf8
import WatchedStore.Json.Fault

/-!
# Reading JSON

A reader runs over the bytes that are left and keeps them also when it fails, since a container that
was not closed yet still decides where a failure inside it is reported. A failure is placed by the
number of bytes left: `stop` points behind the last byte that was taken, `stopAhead` at the next one. A
failure that a typed reader finds in a well-formed value has no place until the reader around it gives
it one (`placing`).

This module holds blanks, words, numbers and strings, and `skipValue`, which passes over a value of
any form without looking into it.
-/

namespace WatchedStore.Json

/-- A fault, and how many bytes were left at the place it is reported for, once that is known. -/
structure Failure where
  fault : Fault
  remaining : Option Nat

/-- Reads from the bytes that are left. -/
abbrev Reader (α : Type) := ExceptT Failure (StateM Bytes) α

namespace Reader

/-- The bytes that are left. -/
def rest : Reader Bytes := fun bytes => (.ok bytes, bytes)

/-- Sets the bytes that are left. -/
def setRest (bytes : Bytes) : Reader Unit := fun _ => (.ok (), bytes)

/-- The next byte, which stays. -/
def peek : Reader (Option UInt8) := fun bytes => (.ok bytes.head?, bytes)

/-- Takes the next byte. -/
def next : Reader (Option UInt8) := fun bytes => (.ok bytes.head?, bytes.tail)

/-- Drops the next byte. -/
def skip : Reader Unit := fun bytes => (.ok (), bytes.tail)

/-- Fails behind the last byte that was taken. -/
def stop (f : Fault) : Reader α := fun bytes => (.error ⟨f, some bytes.length⟩, bytes)

/-- Fails at the next byte, or at the end. -/
def stopAhead (f : Fault) : Reader α := fun bytes => (.error ⟨f, some (bytes.length - 1)⟩, bytes)

/-- Fails at a place that the reader around it knows. -/
def stopUnplaced (f : Fault) : Reader α := fun bytes => (.error ⟨f, none⟩, bytes)

/-- Reports a failure without a place behind the last byte that was taken. -/
def placing (r : Reader α) : Reader α := fun bytes =>
  match r bytes with
  | (.error ⟨f, none⟩, left) => (.error ⟨f, some left.length⟩, left)
  | result => result

/-- Runs `close` after `body`, also when that failed; the first failure counts. -/
def closing (body : Reader α) (close : Reader Unit) : Reader α := fun bytes =>
  match body bytes with
  | (.ok a, left) => (do close; return a : Reader α) left
  | (.error e, left) => (.error e, (close left).2)

/-- Whether a byte is blank: space, line feed, tab or carriage return. -/
def isBlank (b : UInt8) : Bool := b = 0x20 || b = 0x0A || b = 0x09 || b = 0x0D

/-- Drops blanks and shows the next byte. -/
def peekPastBlanks : Reader (Option UInt8) := fun bytes =>
  let left := bytes.dropWhile isBlank
  (.ok left.head?, left)

/-- Whether a byte is a decimal digit. -/
def isDigit (b : UInt8) : Bool := 0x30 ≤ b && b ≤ 0x39

/-- Whether the next byte is a decimal digit. -/
def peekIsDigit : Reader Bool := do
  return ((← peek).map isDigit).getD false

/-- Takes the digits that come next. -/
def takeDigits : Reader Bytes := fun bytes =>
  (.ok (bytes.takeWhile isDigit), bytes.dropWhile isDigit)

/-! ## Words -/

/-- Takes exactly these bytes. -/
def expect : Bytes → Reader Unit
  | [] => return ()
  | b :: more => do
    match ← next with
    | none => stop .endInValue
    | some c => if c = b then expect more else stop .expectedIdent

/-- Takes the rest of `null`, `true` or `false` behind its first letter. -/
def wordRest (s : String) : Reader Unit := expect (Bytes.ofText s)

/-! ## Numbers

The digits are collected in a 64-bit word as long as they fit. Later digits of an integer only raise the
exponent, later digits of a fraction are dropped. The double is then made in one multiplication or
division by a power of ten, which is not always the nearest one. -/

/-- A power of ten as a double. -/
def tenTo (n : Nat) : Float := Float.ofScientific 1 false n

/-- The greatest exponent whose power of ten is a finite double. -/
def maxPower : Nat := 308

/-- Divides by a power of ten, in steps that stay finite. -/
def divideByPower (f : Float) (n : Nat) : Float :=
  if n ≤ maxPower then f / tenTo n
  else if f == 0 then f
  else divideByPower (f / tenTo maxPower) (n - maxPower)
termination_by n
decreasing_by simp only [maxPower] at *; omega

/-- The double of a significand and a decimal exponent. -/
def makeDouble (positive : Bool) (significand : Nat) (exponent : Int) : Reader Float := do
  let f := significand.toUInt64.toFloat
  let signed (x : Float) : Float := if positive then x else -x
  if exponent < 0 then return signed (divideByPower f exponent.natAbs)
  else if exponent ≤ maxPower then
    let product := f * tenTo exponent.natAbs
    if product.isInf then stop .numberOutOfRange else return signed product
  else if f == 0 then return signed f
  else stop .numberOutOfRange

/-- The greatest significand that is kept exactly. -/
def maxSignificand : Nat := 0xFFFFFFFFFFFFFFFF

/-- The greatest exponent that is kept exactly. -/
def maxExponent : Nat := 0x7FFFFFFF

/-- Adds digits to a value as long as it stays at or below a limit: the value, and the digits that
did not fit. -/
def accumulate (limit : Nat) : Nat → Bytes → Nat × Bytes
  | acc, [] => (acc, [])
  | acc, b :: more =>
    let grown := acc * 10 + (b.toNat - 0x30)
    if grown ≤ limit then accumulate limit grown more else (acc, b :: more)

/-- Whether the next byte starts an exponent. -/
def peekIsExponent : Reader Bool := do
  let b ← peek
  return b == some 0x65 || b == some 0x45

/-- Drops a sign, if one comes next. -/
def skipSign : Reader Unit := do
  let sign ← peek
  if sign == some 0x2B || sign == some 0x2D then skip

/-- The digits of a number as they are written: those before the point without a leading zero, those
behind it, and those of an exponent, which raises or lowers. -/
structure Figures where
  whole : Bytes
  fraction : Option Bytes
  exponent : Option (Bool × Bytes)

/-- Takes the digits before the point. -/
def wholeDigits : Reader Bytes := do
  match ← peek with
  | none => stop .endInValue
  | some b =>
    if b = 0x30 then
      skip
      if ← peekIsDigit then stopAhead .invalidNumber else return []
    else if isDigit b then takeDigits
    else
      skip
      stop .invalidNumber

/-- Takes a point and the digits behind it, if there is one. -/
def fractionDigits : Reader (Option Bytes) := do
  if (← peek) == some 0x2E then
    skip
    let digits ← takeDigits
    if digits.isEmpty then
      match ← peek with
      | some _ => stopAhead .invalidNumber
      | none => stopAhead .endInValue
    else return some digits
  else return none

/-- Takes an exponent, if there is one: whether it raises, and its digits. -/
def exponentDigits : Reader (Option (Bool × Bytes)) := do
  if ← peekIsExponent then
    skip
    let sign ← peek
    skipSign
    match ← peek with
    | none => stop .endInValue
    | some b =>
      if isDigit b then return some (sign != some 0x2D, ← takeDigits)
      else
        skip
        stop .invalidNumber
  else return none

/-- Takes the digits of a number. -/
def figures : Reader Figures := do
  let whole ← wholeDigits
  let fraction ← fractionDigits
  let exponent ← exponentDigits
  return ⟨whole, fraction, exponent⟩

/-- The double of a significand whose exponent is `starting` and what the text adds to it. -/
def scaled (positive : Bool) (significand : Nat) (starting : Int) :
    Option (Bool × Bytes) → Reader Float
  | none => makeDouble positive significand starting
  | some (raises, digits) =>
    let (exponent, excess) := accumulate maxExponent 0 digits
    if excess.isEmpty then
      makeDouble positive significand (if raises then starting + exponent else starting - exponent)
    else if significand != 0 && raises then do
      -- only the first of the digits that exceed the limit counts as taken
      setRest (excess.tail ++ (← rest))
      stop .numberOutOfRange
    else return if positive then 0.0 else -0.0

/-- The integer of a significand that is exact. -/
def integer (positive : Bool) (significand : Nat) : Number :=
  if positive then .natural significand.toUInt64
  else if 0 < significand && significand ≤ 0x8000000000000000 then
    .negative (Int64.ofInt (-(significand : Int)))
  else .double (-significand.toUInt64.toFloat)

/-- The number that is written with these digits. -/
def Figures.value (positive : Bool) (f : Figures) : Reader Number :=
  let (whole, excess) := accumulate maxSignificand 0 f.whole
  if f.fraction.isNone && f.exponent.isNone && excess.isEmpty then return integer positive whole
  else
    let digits := f.fraction.getD []
    let (significand, dropped) := accumulate maxSignificand whole digits
    let kept := digits.length - dropped.length
    .double <$> scaled positive significand ((excess.length : Int) - kept) f.exponent

/-- Reads a number behind its minus sign, if it has one. -/
def number (positive : Bool) : Reader Number := do
  (← figures).value positive

/-! ## Strings -/

/-- The number that four hexadecimal digits spell. -/
def hexNumber? (a b c d : UInt8) : Option Nat := do
  return (((← Bytes.hexValue? a) * 16 + (← Bytes.hexValue? b)) * 16 + (← Bytes.hexValue? c)) * 16
    + (← Bytes.hexValue? d)

/-- Takes four hexadecimal digits. -/
def hexEscape : Reader Nat := do
  match ← rest with
  | a :: b :: c :: d :: more =>
    setRest more
    match hexNumber? a b c d with
    | some n => return n
    | none => stop .invalidEscape
  | _ =>
    setRest []
    stop .endInString

/-- Takes a byte that the second half of a surrogate pair has to start with. -/
def pairByte (wanted : UInt8) : Reader Unit := do
  match ← next with
  | none => stop .endInString
  | some b => if b = wanted then return () else stop .unexpectedEndOfEscape

/-- The scalar value of an escape behind its `u`; surrogates come in pairs. -/
def unicodeEscape : Reader Bytes := do
  let first ← hexEscape
  if 0xDC00 ≤ first && first ≤ 0xDFFF then stop .loneSurrogate
  else if first < 0xD800 || 0xDBFF < first then return Utf8.encodeScalar first
  else
    pairByte 0x5C
    pairByte 0x75
    let second ← hexEscape
    if second < 0xDC00 || 0xDFFF < second then stop .loneSurrogate
    else return Utf8.encodeScalar (0x10000 + (first - 0xD800) * 0x400 + (second - 0xDC00))

/-- The byte that a one-letter escape stands for. -/
def simpleEscape? (b : UInt8) : Option UInt8 :=
  match b with
  | 0x22 => some 0x22
  | 0x5C => some 0x5C
  | 0x2F => some 0x2F
  | 0x62 => some 0x08
  | 0x66 => some 0x0C
  | 0x6E => some 0x0A
  | 0x72 => some 0x0D
  | 0x74 => some 0x09
  | _ => none

/-- An escape behind its backslash. -/
def escape : Reader Bytes := do
  match ← next with
  | none => stop .endInString
  | some b =>
    if b = 0x75 then unicodeEscape
    else
      match simpleEscape? b with
      | some c => return [c]
      | none => stop .invalidEscape

/-- Whether a byte stands for itself inside a string. -/
def isPlain (b : UInt8) : Bool := 0x20 ≤ b && b != 0x22 && b != 0x5C

/-- The bytes of a string up to its closing quote; every turn takes a byte or ends. -/
def stringBytes : Nat → Bytes → Reader Bytes
  | 0, _ => stop .endInString
  | fuel + 1, before => do
    let bytes ← rest
    let chunk := bytes.takeWhile isPlain
    setRest (bytes.dropWhile isPlain)
    match ← next with
    | none => stop .endInString
    | some b =>
      if b = 0x22 then return before ++ chunk
      else if b = 0x5C then
        let escaped ← escape
        stringBytes fuel (before ++ chunk ++ escaped)
      else stop .controlCharacter

/-- A string behind its opening quote. Ill-formed UTF-8 is reported at its first byte. -/
def stringRest : Reader String := do
  let start ← rest
  let bytes ← stringBytes (start.length + 1) []
  match Utf8.decode? bytes with
  | some s => return s
  | none => fun left =>
    (.error ⟨.invalidCodePoint, some (start.length - Utf8.validLength start - 1)⟩, left)

/-! ## Passing over a value -/

/-- Passes over an escape behind its backslash; surrogates need no partner. -/
def skipEscape : Reader Unit := do
  match ← next with
  | none => stop .endInString
  | some b =>
    if b = 0x75 then discard hexEscape
    else if (simpleEscape? b).isNone then stop .invalidEscape

/-- Passes over a string behind its opening quote. -/
def skipString : Nat → Reader Unit
  | 0 => stop .endInString
  | fuel + 1 => do
    let bytes ← rest
    setRest (bytes.dropWhile isPlain)
    match ← peek with
    | none => stop .endInString
    | some b =>
      if b = 0x22 then skip
      else if b = 0x5C then
        skip
        skipEscape
        skipString fuel
      else stop .controlCharacter

/-- Passes over the digits before the point. -/
def skipWhole : Reader Unit := do
  if (← peek) == some 0x30 then
    skip
    if ← peekIsDigit then stopAhead .invalidNumber
  else if ← peekIsDigit then discard takeDigits
  else
    skip
    stop .invalidNumber

/-- Passes over a point and the digits behind it, if there is one. -/
def skipFraction : Reader Unit := do
  if (← peek) == some 0x2E then
    skip
    if (← takeDigits).isEmpty then stopAhead .invalidNumber

/-- Passes over an exponent, if there is one. -/
def skipExponent : Reader Unit := do
  if ← peekIsExponent then
    skip
    skipSign
    if ← peekIsDigit then discard takeDigits
    else
      skip
      stop .invalidNumber

/-- Passes over a number behind its minus sign. -/
def skipNumber : Reader Unit := do
  skipWhole
  skipFraction
  skipExponent

/-- A container that is being passed over. -/
inductive Frame where
  | list
  | object
  deriving DecidableEq

/-- The byte that closes a container. -/
def Frame.closer : Frame → UInt8
  | .list => 0x5D
  | .object => 0x7D

/-- Goes on inside the innermost container: closes containers as long as their ends come next, then
stands before the next item. The answer is the containers still open, `[]` when all are closed. -/
def skipClosers : List Frame → Bool → Nat → Reader (List Frame)
  | [], _, _ => return []
  | frame :: outer, _, 0 => return frame :: outer
  | frame :: outer, acceptComma, fuel + 1 => do
    match ← peekPastBlanks with
    | none => stopAhead (if frame = .list then .endInList else .endInObject)
    | some b =>
      if b = 0x2C && acceptComma then
        skip
        return frame :: outer
      else if b = frame.closer then
        skip
        skipClosers outer true fuel
      else if acceptComma then
        stopAhead (if frame = .list then .expectedListCommaOrEnd else .expectedObjectCommaOrEnd)
      else return frame :: outer

/-- Takes the quote in front of a member's name. -/
def nameQuote : Reader Unit := do
  match ← peekPastBlanks with
  | some 0x22 => skip
  | some _ => stopAhead .keyMustBeString
  | none => stopAhead .endInObject

/-- Takes the colon between a name and its value. -/
def colon : Reader Unit := do
  match ← peekPastBlanks with
  | some 0x3A => skip
  | some _ => stopAhead .expectedColon
  | none => stopAhead .endInObject

/-- Passes over the name of a member and its colon. -/
def skipName : Reader Unit := do
  nameQuote
  skipString ((← rest).length + 1)
  colon

/-- Passes over a scalar, or over the start of a container, which is then open. -/
def skipStart : Reader (Option Frame) := do
  match ← peekPastBlanks with
  | none => stopAhead .endInValue
  | some b =>
    if isDigit b then
      skipNumber
      return none
    else
      match b with
      | 0x6E => skip; wordRest "ull"; return none
      | 0x74 => skip; wordRest "rue"; return none
      | 0x66 => skip; wordRest "alse"; return none
      | 0x2D => skip; skipNumber; return none
      | 0x22 => skip; skipString ((← rest).length + 1); return none
      | 0x5B => skip; return some .list
      | 0x7B => skip; return some .object
      | _ => stopAhead .expectedValue

/-- Passes over a value and then over what is left of the containers around it. The nesting is not
limited. -/
def skipInside : Nat → List Frame → Reader Unit
  | 0, _ => stopAhead .expectedValue
  | fuel + 1, open_ => do
    let opened ← skipStart
    let frames ← skipClosers (opened.toList ++ open_) opened.isNone ((← rest).length + 1)
    match frames with
    | [] => return ()
    | .list :: outer => skipInside fuel (.list :: outer)
    | .object :: outer =>
      skipName
      skipInside fuel (.object :: outer)

/-- Passes over one value. -/
def skipValue : Reader Unit := do
  skipInside ((← rest).length + 1) []

/-! ## Whole texts -/

/-- Runs a reader on a whole text, after which only blanks may be left. -/
def run (r : Reader α) (text : Bytes) : Except Problem α :=
  let whole : Reader α := do
    let a ← r
    if (← peekPastBlanks).isSome then stopAhead .trailingCharacters
    return a
  match (placing whole text).1 with
  | .ok a => .ok a
  | .error e => .error (e.fault.placed text (text.length - e.remaining.getD 0))

end Reader

end WatchedStore.Json
