import WatchedStore.Bytes

/-!
# Decimal integers as text

Integers are written as an optional minus sign and decimal digits without superfluous zeros. Reading
takes an optional sign and at least one digit, leading zeros included, and refuses what does not fit.
The first refusal from the left wins: a digit that exceeds the limit before a later stray character,
a stray character before a later excess.
-/

namespace WatchedStore

namespace Numeral

/-- Why a text is not an integer of the wanted range. -/
inductive Refusal where
  | empty
  | invalidDigit
  | tooLarge
  | tooSmall
  deriving DecidableEq, Repr

/-- The reason in words. -/
def Refusal.message : Refusal → String
  | .empty => "cannot parse integer from empty string"
  | .invalidDigit => "invalid digit found in string"
  | .tooLarge => "number too large to fit in target type"
  | .tooSmall => "number too small to fit in target type"

/-- The value of a decimal digit. -/
def digit? (b : UInt8) : Option Nat :=
  if 0x30 ≤ b && b ≤ 0x39 then some (b.toNat - 0x30) else none

/-- Reads digits onto `acc`, as long as the value stays at or below `limit`. -/
def readDigits (limit : Nat) (excess : Refusal) : Nat → Bytes → Except Refusal Nat
  | acc, [] => .ok acc
  | acc, b :: rest =>
    match digit? b with
    | none => .error .invalidDigit
    | some d =>
      if acc * 10 + d ≤ limit then readDigits limit excess (acc * 10 + d) rest else .error excess

/-- Reads at least one digit. -/
def readMagnitude (limit : Nat) (excess : Refusal) : Bytes → Except Refusal Nat
  | [] => .error .invalidDigit
  | digits => readDigits limit excess 0 digits

/-- Reads an unsigned 64-bit integer; a plus sign may stand before it. -/
def readUnsigned : Bytes → Except Refusal UInt64
  | [] => .error .empty
  | 0x2B :: digits => UInt64.ofNat <$> readMagnitude 0xFFFFFFFFFFFFFFFF .tooLarge digits
  | digits => UInt64.ofNat <$> readMagnitude 0xFFFFFFFFFFFFFFFF .tooLarge digits

/-- Reads a signed 64-bit integer; the negative side reaches one further than the positive. -/
def readSigned : Bytes → Except Refusal Int64
  | [] => .error .empty
  | 0x2B :: digits => Int64.ofNat <$> readMagnitude 0x7FFFFFFFFFFFFFFF .tooLarge digits
  | 0x2D :: digits =>
    (fun n => Int64.ofInt (-(n : Int))) <$> readMagnitude 0x8000000000000000 .tooSmall digits
  | digits => Int64.ofNat <$> readMagnitude 0x7FFFFFFFFFFFFFFF .tooLarge digits

/-- The digits of an integer, with a minus sign in front of a negative one. -/
def characters (n : Int) : List Char :=
  if n < 0 then '-' :: Nat.toDigits 10 n.natAbs else Nat.toDigits 10 n.natAbs

/-- An integer as bytes. -/
def encode (n : Int) : Bytes := Bytes.ofAscii (characters n)

/-- An integer as text. -/
def text (n : Int) : String := String.ofList (characters n)

/-- The sum of two 64-bit integers when it is one again. -/
def sum? (a b : Int64) : Option Int64 :=
  let total := a.toInt + b.toInt
  if -0x8000000000000000 ≤ total ∧ total < 0x8000000000000000 then some (Int64.ofInt total) else none

/-- The negative of a 64-bit integer, which the smallest one does not have. -/
def neg? (a : Int64) : Option Int64 :=
  if a = Int64.minValue then none else some (-a)

end Numeral

end WatchedStore
